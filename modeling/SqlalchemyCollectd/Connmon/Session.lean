import SqlalchemyCollectd.Connmon.Frames
import SqlalchemyCollectd.Connmon.Screens

/-!
# SqlalchemyCollectd.Connmon.Session

The display from its start to its end: `run_async`, with the tasks of the `Stat` between
its rounds.

A round draws a frame when the timer says so, and a command draws another one when it puts
a screen on. Nothing in the loop catches what `_render` raises, so the display lives until
it is told to quit, or until a frame comes that cannot be drawn (`lives_iff`). Which frames
come depends on the commands, the sizes of the window and the times alone (`pictures`).
-/

namespace SqlalchemyCollectd

/-- What `run_async` works on, with what the tasks of the `Stat` have done so far. -/
structure Session where
  display : Display
  history : List Stat.Event := []
  frame : Frame
  /-- `last_check` of the timer. -/
  lastCheck : ℚ := 0

namespace Session

inductive Event
  /-- A task of the `Stat` goes on. -/
  | stat (event : Stat.Event)
  /-- A round of the loop. The clock is looked at when it begins, and again if a command
  draws a frame. -/
  | round (now later : ℚ) (input : Display.Input)

/-- `periodic_timer(0.5)`: whether half a second has gone by. -/
def renderTimer (now lastCheck : ℚ) : Bool := now - lastCheck > 1 / 2

/-- `_render`; nothing where it raises. -/
def render (serviceStr : Text) (now : ℚ) (s : Session) : Option Session := do
  let content ← s.display.content
  let winsize ← s.display.winsize
  match SqlalchemyCollectd.render winsize serviceStr content (Stat.run s.history) now s.frame with
  | .ok () frame => some { s with frame }
  | .error _ _ => none

/-- `if render_timer(now): self._render(now)`; nothing where it raises. -/
def timer (serviceStr : Text) (now : ℚ) (s : Session) : Option Session :=
  if renderTimer now s.lastCheck then render serviceStr now { s with lastCheck := now } else some s

/-- `_handle_cmds`; nothing where it raises. -/
def handleCmds (serviceStr : Text) (later : ℚ) (input : Display.Input) (s : Session) :
    Option Session := do
  let (display, renders) ← Display.handleCmds input s.display
  if renders then render serviceStr later { s with display } else some { s with display }

/-- A round of the loop, as long as it runs; nothing where it raises. -/
def round (serviceStr : Text) (now later : ℚ) (input : Display.Input) (s : Session) :
    Option Session :=
  if s.display.enabled then (timer serviceStr now s).bind (handleCmds serviceStr later input)
  else some s

def step (serviceStr : Text) (s : Session) : Event → Option Session
  | .stat event => some { s with history := s.history ++ [event] }
  | .round now later input => round serviceStr now later input s

/-- The session after `_start_impl`. -/
def start (curses : Curses) (serviceStr : Text) (winsize : Winsize) (now : ℚ) : Option Session := do
  let (display, _) ← Display.startImpl winsize
  render serviceStr now { display, frame := startFrame curses }

/-- A session; nothing if it has ended with an exception. -/
def run (curses : Curses) (serviceStr : Text) (winsize : Winsize) (now : ℚ) (events : List Event) :
    Option Session :=
  (start curses serviceStr winsize now).bind fun s => events.foldlM (step serviceStr) s

end Session

/-! ### What is drawn -/

/-- What a frame shows: a view in a window, and the statistics. -/
structure Picture where
  shows : View × Winsize
  history : List Stat.Event

/-- A picture can be drawn. -/
def Picture.Drawable (curses : Curses) (picture : Picture) : Prop :=
  ∀ kind, picture.shows.1 = .stats kind → (Stat.run picture.history).TotalsShown ∧
    ∀ row ∈ kind.hostprogs (Stat.run picture.history), row.Shown curses picture.shows.2.cols

/-- A session, for somebody in front of it. -/
structure Scene where
  picture : Picture
  lastCheck : ℚ := 0
  enabled : Bool := true

namespace Scene

/-- What an event makes of a scene. -/
def next (scene : Scene) : Session.Event → Scene
  | .stat event =>
      { scene with picture := { scene.picture with history := scene.picture.history ++ [event] } }
  | .round now _ input =>
      if scene.enabled then
        { picture := { scene.picture with shows := Display.shown input scene.picture.shows }
          lastCheck := if Session.renderTimer now scene.lastCheck then now else scene.lastCheck
          enabled := !input.quits }
      else scene

/-- The frames of an event: one for the timer, and one for a command that puts a screen on. -/
def drawn (scene : Scene) : Session.Event → List Picture
  | .stat _ => []
  | .round now later input =>
      if scene.enabled then
        (if Session.renderTimer now scene.lastCheck then [scene.picture] else []) ++
          if input.char.any scene.picture.shows.1.refreshes then
            [(scene.next (.round now later input)).picture] else []
      else []

/-- The scene at the start. -/
def start (winsize : Winsize) : Scene := { picture := ⟨(.stats .prog, winsize), []⟩ }

end Scene

namespace Session

/-- A session is all right, and looks like a scene. -/
structure Looks (curses : Curses) (s : Session) (scene : Scene) : Prop where
  good : Display.Good s.display scene.picture.shows.1 scene.picture.shows.2
  history : s.history = scene.picture.history
  colors : curses.Cached s.frame.colorPairs
  lastCheck : s.lastCheck = scene.lastCheck
  enabled : s.display.enabled = scene.enabled

section Runs

variable {curses : Curses} {serviceStr : Text} {s : Session} {scene : Scene}

theorem settles_renderScreen (picture : Picture) (now : ℚ) : Settles curses
    (renderScreen picture.shows.2 (Stat.run picture.history) now
      (picture.shows.1.content picture.shows.2)) (picture.Drawable curses) := by
  obtain ⟨⟨view, winsize⟩, history⟩ := picture
  cases view with
  | stats kind =>
      refine (Settles.renderScreen_run curses winsize history now kind).congr ?_
      simp [Picture.Drawable]
  | legend kind =>
      refine (Settles.renderLegend curses winsize).congr ?_
      simp [Picture.Drawable]
  | stuck =>
      refine (Settles.renderLegend curses winsize).congr ?_
      simp [Picture.Drawable]

/-- **A frame** is drawn, and nothing else changes, or the session ends. -/
theorem render_cases (hservice : Plain serviceStr) (h : Looks curses s scene) (now : ℚ) :
    (scene.picture.Drawable curses ∧ ∃ s', render serviceStr now s = some s' ∧
      Looks curses s' scene ∧ s'.display = s.display) ∨
    (¬scene.picture.Drawable curses ∧ render serviceStr now s = none) := by
  have hcontent := Display.content_of_good h.good
  obtain ⟨screen, hwinsize, -⟩ := h.good
  have hsettles := Settles.render hservice (settles_renderScreen scene.picture now) s.frame h.colors
  rw [← h.history] at hsettles
  by_cases hdrawable : scene.picture.Drawable curses
  · obtain ⟨frame, hcached, hframe⟩ := hsettles.1 hdrawable
    refine Or.inl ⟨hdrawable, { s with frame }, by simp [render, hcontent, hwinsize, hframe], ?_, rfl⟩
    exact ⟨h.good, h.history, hcached, h.lastCheck, h.enabled⟩
  · obtain ⟨e, frame, hframe⟩ := hsettles.2 hdrawable
    exact Or.inr ⟨hdrawable, by simp [render, hcontent, hwinsize, hframe]⟩

/-- The timer: a frame if half a second has gone by. -/
theorem timer_cases (hservice : Plain serviceStr) (h : Looks curses s scene) (now : ℚ) :
    ((∀ picture ∈ if renderTimer now scene.lastCheck then [scene.picture] else [],
        picture.Drawable curses) ∧
      ∃ s', timer serviceStr now s = some s' ∧
        Looks curses s' { scene with
          lastCheck := if renderTimer now scene.lastCheck then now else scene.lastCheck } ∧
        s'.display = s.display) ∨
    ((∃ picture ∈ if renderTimer now scene.lastCheck then [scene.picture] else [],
        ¬picture.Drawable curses) ∧
      timer serviceStr now s = none) := by
  rw [timer, h.lastCheck]
  cases renderTimer now scene.lastCheck with
  | false => exact Or.inl ⟨by simp, s, rfl, h, rfl⟩
  | true =>
      have hlooks : Looks curses { s with lastCheck := now } { scene with lastCheck := now } :=
        ⟨h.good, h.history, h.colors, rfl, h.enabled⟩
      obtain ⟨hdrawable, s', hs', hlooks', hdisplay⟩ | ⟨hnot, hnone⟩ :=
        render_cases hservice hlooks now
      · exact Or.inl ⟨by simpa using hdrawable, s', hs', hlooks', hdisplay⟩
      · exact Or.inr ⟨by simpa using hnot, hnone⟩

/-- **A round** leaves the session all right, or one of its frames cannot be drawn. -/
theorem round_cases (hservice : Plain serviceStr) (h : Looks curses s scene) (now later : ℚ)
    (input : Display.Input) :
    ((∀ picture ∈ scene.drawn (.round now later input), picture.Drawable curses) ∧
      ∃ s', round serviceStr now later input s = some s' ∧
        Looks curses s' (scene.next (.round now later input))) ∨
    ((∃ picture ∈ scene.drawn (.round now later input), ¬picture.Drawable curses) ∧
      round serviceStr now later input s = none) := by
  rw [round, h.enabled]
  cases henabled : scene.enabled with
  | false =>
      refine Or.inl ⟨by simp [Scene.drawn, henabled], s, rfl, ?_⟩
      simpa [Scene.next, henabled] using h
  | true =>
      obtain ⟨hfirst, s₁, hs₁, hlooks, hdisplay⟩ | ⟨⟨picture, hpicture, hnot⟩, hnone⟩ :=
        timer_cases hservice h now
      -- the timer has not raised, so the command is looked at
      · obtain ⟨display, hcmds, hquit, hgood⟩ := Display.good_handleCmds (hdisplay ▸ h.good) input
        have hnext : Looks curses { s₁ with display } (scene.next (.round now later input)) := by
          rw [Scene.next, henabled, if_pos rfl]
          refine ⟨hgood, hlooks.history, hlooks.colors, hlooks.lastCheck, ?_⟩
          rw [hquit, hdisplay, h.enabled, henabled, Bool.true_and]
        rw [if_pos rfl, hs₁, Option.bind_some, handleCmds, hcmds, Option.bind_eq_bind,
          Option.bind_some, Scene.drawn, henabled, if_pos rfl]
        cases input.char.any scene.picture.shows.1.refreshes with
        | false =>
            refine Or.inl ⟨?_, _, rfl, hnext⟩
            rw [if_neg Bool.false_ne_true, List.append_nil]
            exact hfirst
        | true =>
            obtain ⟨hdrawable, s', hs', hlooks', -⟩ | ⟨hnot, hnone⟩ :=
              render_cases hservice hnext later
            · refine Or.inl ⟨?_, s', hs', hlooks'⟩
              exact List.forall_mem_append.mpr ⟨hfirst, by simpa using hdrawable⟩
            · refine Or.inr ⟨⟨_, List.mem_append_right _ List.mem_cons_self, hnot⟩, hnone⟩
      · refine Or.inr ⟨⟨picture, ?_, hnot⟩, ?_⟩
        · rw [Scene.drawn, henabled, if_pos rfl]
          exact List.mem_append_left _ hpicture
        · rw [if_pos rfl, hnone, Option.bind_none]

theorem step_cases (hservice : Plain serviceStr) (h : Looks curses s scene) (event : Event) :
    ((∀ picture ∈ scene.drawn event, picture.Drawable curses) ∧
      ∃ s', step serviceStr s event = some s' ∧ Looks curses s' (scene.next event)) ∨
    ((∃ picture ∈ scene.drawn event, ¬picture.Drawable curses) ∧
      step serviceStr s event = none) := by
  cases event with
  | stat event =>
      refine Or.inl ⟨by simp [Scene.drawn], _, rfl, h.good, ?_, h.colors, h.lastCheck, h.enabled⟩
      exact congrArg (· ++ [event]) h.history
  | round now later input => exact round_cases hservice h now later input

end Runs

end Session

end SqlalchemyCollectd

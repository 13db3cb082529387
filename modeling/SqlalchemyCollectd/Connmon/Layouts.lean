import SqlalchemyCollectd.Connmon.Display
import SqlalchemyCollectd.Connmon.Stat

/-!
# SqlalchemyCollectd.Connmon.Layouts

The screens of connmon: the programs, the hosts, and the legend.
-/

namespace SqlalchemyCollectd

open Markup

/-! ### Formats -/

/-- The formats in `columns`: `%s`, `%4d` and `%.2f`. -/
inductive Fragment
  | s
  | d (width : ℕ)
  | f2
  deriving DecidableEq

/-- What is put in a format. -/
inductive Elem
  | str (text : Text)
  | number (x : Number)
  | rational (q : ℚ)

/-- `str(n)`. -/
def intText (n : ℤ) : Text := (if n < 0 then ['-'] else []) ++ Nat.toDigits 10 n.natAbs

/-- `int(x)`. -/
def Number.toInt : Number → Except DisplayError ℤ
  | .int n => .ok n
  | .float x =>
      match x.toModel.unpack with
      | .notANumber => .error .valueError
      | .infinity _ => .error .overflowError
      | .zero _ => .ok 0
      | .finite s m e _ => .ok (pyInt ((s.apply m : ℤ) * 2 ^ e))

/-- The integer next to a number that is not negative, an even one where there are two. -/
def roundHalfEven (q : ℚ) : ℕ :=
  let below := ⌊q⌋.toNat
  if q - below < 1 / 2 then below
  else if 1 / 2 < q - below then below + 1
  else if below % 2 = 0 then below else below + 1

/-- `"%.2f" % x`. -/
def floatText (x : Float) : Text :=
  let sign : Float.Model.UnpackedFloat.Sign → Text
    | .positive => []
    | .negative => ['-']
  match x.toModel.unpack with
  | .notANumber => ['n', 'a', 'n']
  | .infinity s => sign s ++ ['i', 'n', 'f']
  | .zero s => sign s ++ ['0', '.', '0', '0']
  | .finite s m e _ =>
      let hundredths := roundHalfEven (m * 2 ^ e * 100)
      sign s ++ Nat.toDigits 10 (hundredths / 100) ++
        ['.', Nat.digitChar (hundredths / 10 % 10), Nat.digitChar (hundredths % 10)]

/-- `text.rjust(width)`. -/
def rjust (width : ℕ) (text : Text) : Text := List.replicate (width - text.length) ' ' ++ text

/-- `fmt_frag % elem`. Nothing but texts is given to `%s`. -/
def Fragment.format : Fragment → Elem → Except DisplayError Text
  | .s, .str text => .ok text
  | .s, .number (.int n) => .ok (intText n)
  | .s, _ => .error .typeError
  | .d _, .str _ => .error .typeError
  | .d width, .number x => (Number.toInt x).map fun n => rjust width (intText n)
  | .d width, .rational q => .ok (rjust width (intText (pyInt q)))
  | .f2, .number (.int n) =>
      if (Float.nearest n).isInf then .error .overflowError else .ok (floatText (Float.nearest n))
  | .f2, .number (.float x) => .ok (floatText x)
  | .f2, _ => .error .typeError

/-- `_dash_for_fmt`. -/
def dashForFmt (fmtFrag : Fragment) : Except DisplayError Text :=
  (fmtFrag.format (.number (.int 5))).map fun sample =>
    sample.map fun char => if char ≠ '5' then ' ' else '-'

/-- A part of a cell: what is shown of `None` are dashes. -/
def fragText : Fragment × Option Elem → Except DisplayError Text
  | (fmtFrag, some elemFrag) => fmtFrag.format elemFrag
  | (fmtFrag, none) => dashForFmt fmtFrag

/-- The `elem` of `_render_row`, for an element of a row and the format of its column. -/
def cellText (fmt : List Fragment) (elem : List (Option Elem)) : Except DisplayError Text :=
  ((fmt.zip elem).mapM fragText).map (List.intercalate [' ', ' '])

/-! ### Columns -/

inductive Justify
  | L
  | R
  deriving DecidableEq

structure Column where
  cname : Text
  fmt : List Fragment
  /-- The share of the window. -/
  colWidth : Float
  just : Justify

/-- `ProgStatsLayout.columns`. -/
def progColumns : List Column :=
  [⟨"hostname\n(#R&[dis]#G&connected#d&)".toList, [.s], Float.nearestQuotient 18 100, .L⟩,
    ⟨"progname".toList, [.s], Float.nearestQuotient 15 100, .L⟩,
    ⟨"last msg\nsecs / int".toList, [.s, .d 3], Float.nearestQuotient 10 100, .R⟩,
    ⟨"processes\ncurr / max".toList, [.d 4, .d 4], Float.nearestQuotient 15 100, .R⟩,
    ⟨"connections\ncurr / max / int".toList, [.d 4, .d 4, .d 4], Float.nearestQuotient 15 100, .R⟩,
    ⟨"checkouts\ncurr / max / int".toList, [.d 4, .d 4, .d 4], Float.nearestQuotient 15 100, .R⟩,
    ⟨"checkouts\n/sec".toList, [.f2], Float.nearestQuotient 10 100, .R⟩]

/-- `HostStatsLayout.columns`. -/
def hostColumns : List Column := progColumns.take 1 ++ progColumns.drop 2

/-- `int(display._winsize[1] * col_width)`. -/
def layoutWidth (cols : ℕ) (colWidth : Float) : ℤ :=
  match Number.toInt (.float (Float.nearest cols * colWidth)) with
  | .ok n => n
  | .error _ => 0

/-- `charwidth` of a column. -/
def Column.charwidth (cols : ℕ) (col : Column) : ℤ :=
  max (textWidth col.cname) (layoutWidth cols col.colWidth)

/-- The loop of `_calc_x_positions`: the place and the width of each column. -/
def xPositionsFrom (cols : ℕ) : ℤ → List Column → List (ℤ × ℤ)
  | _, [] => []
  | x, col :: columns =>
      match col.just with
      | .L => (x, col.charwidth cols) :: xPositionsFrom cols (x + col.charwidth cols) columns
      | .R =>
          let x := cols - ((col :: columns).map (Column.charwidth cols)).sum
          (x, col.charwidth cols) :: xPositionsFrom cols x columns

/-- `_calc_x_positions`. -/
def calcXPositions (cols : ℕ) (columns : List Column) : List (ℤ × ℤ) :=
  xPositionsFrom cols 0 columns

/-- `_just`. -/
def just (text : Text) (width : ℕ) : Text :=
  List.replicate ((width - text.length : ℤ).tdiv 2).toNat ' ' ++ text

/-- `_justify_rows`. -/
def justifyRows (text : Text) : List Text :=
  (text.splitOn '\n').map fun row => just row (textWidth text)

/-! ### Rows -/

/-- `"#%s&%s" % ("G" if green else "R", text)`. -/
def colored (green : Bool) (text : Text) : Text := ['#', if green then 'G' else 'R', '&'] ++ text

/-- `row_for_hostprog`. -/
def rowForHostprog (hostprog : HostProg) (now : ℚ) : List (List (Option Elem)) :=
  let lastMetric := now - hostprog.lastTime
  let hostname := [some (.str (colored hostprog.isConnected hostprog.hostname.toList))]
  let progname := match hostprog.progname with
    | some progname => [[some (.str progname.toList)]]
    | none => []
  hostname :: progname ++
    [[some (.str (colored (lastMetric ≤ hostprog.interval + 5) (intText (pyInt lastMetric)))),
        some (.rational hostprog.interval)],
      [hostprog.processCount.map .number, some (.number hostprog.maxProcessCount)],
      [hostprog.connectionCount.map .number, some (.number hostprog.maxConnections),
        hostprog.intervalConnects.map .number],
      [hostprog.checkoutCount.map .number, some (.number hostprog.maxCheckedout),
        hostprog.intervalCheckouts.map .number],
      [hostprog.checkoutsPerSecond.map fun x => .number (.float x)]]

/-- The key that `get_rows` sorts by. -/
def HostProg.sortKey (hostprog : HostProg) : String ×ₗ String :=
  toLex (hostprog.hostname, hostprog.progname.getD "")

/-- `hostprogs.sort`. -/
def sortHostprogs (hostprogs : List HostProg) : List HostProg :=
  hostprogs.mergeSort fun a b => a.sortKey ≤ b.sortKey

/-- The two screens with statistics. -/
inductive StatKind
  | prog
  | host
  deriving DecidableEq

def StatKind.columns : StatKind → List Column
  | .prog => progColumns
  | .host => hostColumns

/-- The `hostprogs` of `get_rows`. -/
def StatKind.hostprogs (stat : Stat) : StatKind → List HostProg
  | .prog => sortHostprogs (stat.hostprogs.items.map Prod.snd)
  | .host => sortHostprogs (stat.hosts.items.map Prod.snd)

/-- `get_rows`. -/
def StatKind.getRows (stat : Stat) (now : ℚ) (kind : StatKind) : List (List (List (Option Elem))) :=
  (kind.hostprogs stat).map fun hostprog => rowForHostprog hostprog now

/-! ### Rendering -/

/-- An expression that may raise. -/
def evaluate {β : Type} : Except DisplayError β → EStateM DisplayError Frame β
  | .ok b => pure b
  | .error e => throw e

/-- The `center_within_width` of a column. -/
def Column.center (col : Column) (charwidth : ℤ) : Option ℤ :=
  if col.just = .R then some charwidth else none

/-- `_render_row`. -/
def renderRow (winsize : Winsize) (xPositions : List (ℤ × ℤ)) (columns : List Column)
    (row : List (List (Option Elem))) (y : ℤ) : EStateM DisplayError Frame Unit :=
  ((row.zip columns).zip xPositions).forM fun ((elem, col), (x, charwidth)) => do
    let text ← evaluate (cellText col.fmt elem)
    renderStr winsize y x text ['D'] (col.center charwidth)

/-- `"... [%d curr / %d max] ..."` with two of them. -/
def totalsText (first second : Text) (ending : Text) (a b c d : ℤ) : Text :=
  "#Mb&".toList ++ first ++ ": #Dn&[".toList ++ intText a ++ " curr / ".toList ++ intText b ++
    " max]  #Mb&".toList ++ second ++ ": #Dn&[".toList ++ intText c ++ " curr / ".toList ++
    intText d ++ " max".toList ++ ending

/-- The checkouts per second in the totals. -/
def checkoutsText : Option Number → Except DisplayError Text
  | some x => (Fragment.f2.format (.number x)).map (· ++ " / sec".toList)
  | none => .ok "<calc>".toList

/-- The two lines with totals of `StatLayout.render`. -/
def renderTotals (winsize : Winsize) (stat : Stat) : EStateM DisplayError Frame Unit := do
  let processes ← evaluate (Number.toInt stat.processCount)
  let maxProcesses ← evaluate (Number.toInt stat.maxProcessCount)
  renderStr winsize 2 0 (totalsText "Hosts".toList "Processes".toList "]  ".toList
    stat.hostCount stat.maxHostCount processes maxProcesses) ['W', 'b']
  let persecond ← evaluate (checkoutsText stat.checkoutsPerSecond)
  let connections ← evaluate (Number.toInt stat.connectionCount)
  let maxConnections ← evaluate (Number.toInt stat.maxConnections)
  let checkouts ← evaluate (Number.toInt stat.checkoutCount)
  let maxCheckedout ← evaluate (Number.toInt stat.maxCheckedout)
  renderStr winsize 3 0 (totalsText "Connections".toList "Checkouts".toList
    (" / ".toList ++ persecond ++ "]".toList) connections maxConnections checkouts maxCheckedout)
    ['W', 'b']

/-- The names of the columns, over one or two rows of the window. -/
def renderNames (winsize : Winsize) (xPositions : List (ℤ × ℤ)) (columns : List Column) :
    EStateM DisplayError Frame Unit :=
  (columns.zip xPositions).forM fun (col, (x, charwidth)) =>
    ((justifyRows col.cname).take 2).zipIdx.forM fun (name, i) =>
      renderStr winsize (6 + i) x name ['C', 'b'] (col.center charwidth)

/-- `StatLayout.render`. -/
def renderStats (winsize : Winsize) (xPositions : List (ℤ × ℤ)) (stat : Stat) (now : ℚ)
    (kind : StatKind) : EStateM DisplayError Frame Unit := do
  renderTotals winsize stat
  renderNames winsize xPositions kind.columns
  (kind.getRows stat now).zipIdx.forM fun (row, i) =>
    renderRow winsize xPositions kind.columns row (8 + i)

/-- `KeyLayout.get_lines`. -/
def legendLines : List Text := [
  "#b&++========++",
  "#b&|| Legend ||",
  "#b&++========++",
  "#b&hostname        - #n&Hostname of source machine, ",
  "                  #G&green#d& if currently sending stats, ",
  "                  #R&red#n& if no stats are being received",
  "#b&progname        - #n&program name reported by client",
  "#b&last msg        - #n&number of seconds since last message / ",
  "                  interval between messages in seconds",
  "#b&processes       - #n&number of processes (with database stats):",
  "                  current reported / max since monitor started",
  "#b&connections     - #n&number of connections: ",
  "                  current reported / max since monitor started /",
  "                  number since last interval",
  "#b&checkouts       - #n&number of checkouts: ",
  "                  current reported / max since monitor started /",
  "                  number since last interval",
  "#b&checkouts / sec - #n&checkouts per second:",
  "                  based on number of checkouts since last ",
  "                  interval divided by interval"].map String.toList

/-- `TextLayout.render`. -/
def renderLegend (winsize : Winsize) : EStateM DisplayError Frame Unit :=
  legendLines.zipIdx.forM fun (line, i) => renderStr winsize (6 + i) 5 line

/-- What `screen.render` reads of a screen: the kind of its statistics and its
`_x_positions`, or nothing where it is the legend. -/
abbrev Content := Option (StatKind × List (ℤ × ℤ))

/-- `screen.render`. -/
def renderScreen (winsize : Winsize) (stat : Stat) (now : ℚ) :
    Content → EStateM DisplayError Frame Unit
  | some (kind, xPositions) => renderStats winsize xPositions stat now kind
  | none => renderLegend winsize

/-- `Display._render`. -/
def render (winsize : Winsize) (serviceStr : Text) (content : Content) (stat : Stat) (now : ℚ) :
    EStateM DisplayError Frame Unit := do
  modify fun frame => { frame with window := fun _ _ => none }
  renderStr winsize 0 0 ("#Bb&[Connmon]#Dn& ".toList ++ serviceStr)
  renderStr winsize 0 (-1) ("#D&Commands: #Y&(H)#D&ost stats #Y&(P)#D&rogram stats ".toList ++
    "#Y&(?)#D&Legend #Y&(Q)#D&uit".toList)
  renderScreen winsize stat now content

end SqlalchemyCollectd

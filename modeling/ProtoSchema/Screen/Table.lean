import ProtoSchema.Screen.Line

/-!
# Tables

A column is as wide as the widest of its cells, and every cell has some blanks before and behind it.
Where the columns do not fit the screen, the widest ones give way. A cell may take several lines;
the cells beside it are then filled up with blank ones.
-/

namespace ProtoSchema.Screen

/-- On which side of a cell it is filled up: behind its text, or before. -/
inductive Justify
  | left
  | right
  deriving DecidableEq, Repr

/-- A line of a cell, cut off or filled up to a width. -/
def Justify.fill (j : Justify) (width : Nat) (line : Styled) : Except CutFailure Styled :=
  match j with
  | left => do
    let filled ← cutLine .ellipsis width line
    let missing := width - columns line.units
    return { filled with units := filled.units ++ blanks missing }
  | right => do
    let filled ← cutLine .ellipsis width (line.withUnits (Words.trimEnd line.units))
    let missing := width - columns filled.units
    return ⟨blanks missing ++ filled.units, filled.spans.map (·.shift missing)⟩

/-- Whether a character ends a line of a cell when its width is measured. -/
def endsMeasuredLine : TextUnit → Bool
  | .char c =>
    (0xA ≤ c.toNat ∧ c.toNat ≤ 0xD) ∨ (0x1C ≤ c.toNat ∧ c.toNat ≤ 0x1E) ∨
      [0x85, 0x2028, 0x2029].contains c.toNat
  | .stray _ => false

/-- How many columns the widest line of a cell takes, with its tabs left out. -/
def cellWidth (cell : List TextUnit) : Nat :=
  ((cell.splitOnP endsMeasuredLine).map columns).foldl max 0

/-! ## Narrowing columns -/

/-- The whole number nearest to a fraction, and of two the even one. -/
def nearest (numerator denominator : Nat) : Nat :=
  let quotient := numerator / denominator
  let rest := 2 * (numerator % denominator)
  if rest < denominator ∨ (rest = denominator ∧ quotient % 2 = 0) then quotient else quotient + 1

/-- Takes a width from the columns as wide as `widest`, in equal shares of at most `limit`, where
`sharers` of these columns are left. -/
def shareOut (widest limit : Nat) : (excess sharers : Nat) → List Nat → List Nat
  | _, _, [] => []
  | excess, sharers, w :: ws =>
    if w = widest then
      let share := min limit (nearest excess sharers)
      (w - share) :: shareOut widest limit (excess - share) (sharers - 1) ws
    else w :: shareOut widest limit excess sharers ws

/-- The columns of some widths together. -/
def total (widths : List Nat) : Nat := widths.foldl (· + ·) 0

/-- Takes what is too much from the widest columns, at most until they are as wide as the next
ones. -/
def narrow (available : Nat) (widths : List Nat) : List Nat :=
  let widest := widths.foldl max 0
  let next := (widths.filter (· ≠ widest)).foldl max 0
  let excess := total widths - available
  shareOut widest (min excess (widest - next)) excess (widths.count widest) widths

/-- Widths that fit the screen. Each round leaves fewer different widths, or none too wide. -/
def fitWidths (available : Nat) (widths : List Nat) : List Nat :=
  widths.foldl (fun fitted _ => if total fitted ≤ available then fitted else narrow available fitted)
    widths

/-! ## Tables -/

/-- A table. The blanks before and behind a cell are `before` and `behind`. -/
structure Table where
  before : Nat
  behind : Nat
  justify : List Justify
  rows : List (List Styled)

namespace Table

/-- The cell of a row at an index. -/
def cell (row : List Styled) (index : Nat) : Styled := row.getD index (.plain [])

/-- The width of the column at an index, blanks included, on a screen that is wide enough. -/
def columnWidth (t : Table) (index : Nat) : Nat :=
  let width := (t.rows.map fun row => cellWidth (cell row index).units).foldl max 0
  min screenWidth (min screenWidth width + t.before + t.behind)

/-- The widths of all columns. -/
def widths (t : Table) : List Nat :=
  fitWidths screenWidth (t.justify.zipIdx.map fun (_, index) => t.columnWidth index)

/-- The lines of a cell in a column of a width, in pieces. Where the blanks leave no room, there is
no line. -/
def cellLines (t : Table) (j : Justify) (width : Nat) (cell : Styled) :
    Except LineProblem (List (List (List TextUnit))) := do
  let inner := width - t.before - t.behind
  if inner = 0 then return []
  let lines ← (wrap .ellipsis inner (j.fill inner) cell).mapError .cut
  let lines ← ((← tellPieces lines).mapM (fitPieces inner)).mapError .cut
  let padded := lines.map fun pieces => [blanks t.before] ++ pieces ++ [blanks t.behind]
  (padded.mapM fun pieces => do fitPieces width (← fitPieces width pieces)).mapError .cut

/-- The lines of a row in columns of some widths, in pieces. -/
def rowLines (t : Table) (widths : List Nat) (row : List Styled) :
    Except LineProblem (List (List (List TextUnit))) := do
  let cells ← (t.justify.zip widths).zipIdx.mapM fun ((j, width), index) =>
    return (width, ← t.cellLines j width (cell row index))
  let height := (cells.map (·.2.length)).foldl max 1
  return (List.range height).map fun i => cells.flatMap fun (width, lines) =>
    lines.getD i [blanks width]

/-- The text of a table. -/
def text (t : Table) : Except LineProblem Text := do
  let lines ← t.rows.flatMapM (t.rowLines t.widths)
  (printedPieces lines).mapError .cut

end Table

end ProtoSchema.Screen

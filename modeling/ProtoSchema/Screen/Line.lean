import ProtoSchema.Screen.Style
import ProtoSchema.Screen.Styled
import ProtoSchema.Text.Cluster
import ProtoSchema.Text.Words

/-!
# Lines on a screen

A text is shown line by line. Controls that would move the cursor are left out and a tab goes on to
its next stop. Where a line has to fit a width, it goes on in another one before a word that would
reach beyond it. A word that fits no line is folded into several, or else cut off.
-/

namespace ProtoSchema.Screen

/-- Why text cannot be shown: it has a style that cannot be told, or it cannot be cut. -/
inductive LineProblem
  | style (failure : StyleFailure)
  | cut (failure : CutFailure)
  deriving DecidableEq, Repr

/-- A blank. -/
def blank : TextUnit := .char ' '

/-- Some blanks. -/
def blanks (count : Nat) : List TextUnit := List.replicate count blank

/-- Whether a unit would move the cursor: bell, backspace, vertical tab, form feed and carriage
return. -/
def movesCursor : TextUnit → Bool
  | .char c => [0x7, 0x8, 0xB, 0xC, 0xD].contains c.toNat
  | .stray _ => false

/-- Units without the controls that would move the cursor. -/
def dropControls (units : List TextUnit) : List TextUnit := units.filter (!movesCursor ·)

/-! ## Tabs -/

/-- The number of columns between two stops of a tab. -/
def tabStop : Nat := 8

/-- How far it is from a column to the next stop, where none is needed at a stop. -/
def toStop (column : Nat) : Nat := (tabStop - column % tabStop) % tabStop

/-- The parts between the tabs of a line, from a column on, with blanks up to the next stop behind
each. Every tab is one blank at least. -/
def joinAtStops (column : Nat) : List Styled → Styled
  | [] => .plain []
  | [last] => last
  | part :: rest =>
    let part := { part with units := part.units.dropLast ++ [blank] }
    let reached := column + columns part.units
    (part.extend (blanks (toStop reached))).append (joinAtStops (reached + toStop reached) rest)

/-- A line with blanks instead of tabs. -/
def expandTabs (line : Styled) : Styled :=
  match (line.units.splitOn (.char '\t')).map List.length with
  | [] | [_] => line
  | lengths =>
    joinAtStops 0 (line.partsFrom 0 (lengths.dropLast.map (· + 1) ++ lengths.getLast?.toList))

/-! ## Fitting a width -/

/-- What becomes of a word that fits no line: it is folded into several lines, or stands alone and
is cut off. -/
inductive Overflow
  | fold
  | ellipsis
  deriving DecidableEq, Repr

/-- Lines in the making: the indices at which they begin, the last one first, where the next word
begins, and the columns in use on the current line. -/
structure Filling where
  starts : List Nat
  place : Nat
  used : Nat

namespace Filling

/-- Begins another line at an index, unless the text begins there. -/
def start (f : Filling) (index : Nat) : Filling :=
  if index = 0 then f else { f with starts := index :: f.starts }

/-- Begins lines with the pieces of a folded word, the first of them at an index. -/
def fold (f : Filling) (index : Nat) : List (List TextUnit) → Filling
  | [] => f
  | [piece] => { f.start index with used := columns piece }
  | piece :: rest => (f.start index).fold (index + piece.length) rest

/-- Puts a word behind the others if it fits there without the blanks at its end, and otherwise on
another line. -/
def add (overflow : Overflow) (width : Nat) (f : Filling) (word : List TextUnit) : Filling :=
  let solid := columns (Words.trimEnd word)
  let f' : Filling :=
    if f.used + solid ≤ width then { f with used := f.used + columns word }
    else if width < solid ∧ overflow = .fold then f.fold f.place (piecesOfColumns width word)
    else { f.start f.place with used := columns word }
  { f' with place := f.place + word.length }

end Filling

/-- The lengths between increasing indices, from the first up to a last one. -/
def lengthsBetween (start : Nat) : List Nat → (stop : Nat) → List Nat
  | [], stop => [stop - start]
  | index :: rest, stop => (index - start) :: lengthsBetween index rest stop

/-- A line in as many as it needs to fit a width. -/
def breakLine (overflow : Overflow) (width : Nat) (line : Styled) : List Styled :=
  let f := (Words.spaced line.units).foldl (Filling.add overflow width) ⟨[], 0, 0⟩
  line.divide (lengthsBetween 0 f.starts.reverse line.units.length)

/-- A line without those of the blanks at its end that are units beyond the width. -/
def trimBeyond (width : Nat) (line : Styled) : Styled :=
  let ending := line.units.length - (Words.trimEnd line.units).length
  line.withUnits (line.units.take (line.units.length - min ending (line.units.length - width)))

/-- A line that is cut off if it is too wide; an ellipsis may show it. -/
def cutLine (overflow : Overflow) (width : Nat) (line : Styled) : Except CutFailure Styled :=
  if columns line.units ≤ width then .ok line
  else
    match overflow with
    | .fold => (cutToColumns width line.units).map line.withUnits
    | .ellipsis =>
      (cutToColumns (width - 1) line.units).map fun units => line.withUnits (units ++ [.char '…'])

/-- The lines of a text, each in as many as it needs to fit a width; `finish` is done to each. -/
def wrap (overflow : Overflow) (width : Nat) (finish : Styled → Except CutFailure Styled)
    (t : Styled) : Except CutFailure (List Styled) :=
  t.lines.flatMapM fun line =>
    (breakLine overflow width (expandTabs line)).mapM fun line => do
      cutLine overflow width (← finish (trimBeyond width line))

/-! ## Printing -/

/-- The pieces of the lines, if all their styles can be told. -/
def tellPieces (lines : List Styled) : Except LineProblem (List (List (List TextUnit))) := do
  lines.forM fun line => line.spans.forM fun s =>
    match Style.ofUnits s.style with
    | .error .unknown | .ok _ => .ok ()
    | .error failure => .error (.style failure)
  return lines.map Styled.pieces

/-- The columns of pieces. -/
def columnsOfPieces (pieces : List (List TextUnit)) : Nat := pieces.foldl (fun n piece => n + columns piece) 0

/-- Pieces up to a width; the one that reaches there is cut off. -/
def cropPieces (width : Nat) : List (List TextUnit) → Except CutFailure (List (List TextUnit))
  | [] => .ok []
  | piece :: rest =>
    if columns piece < width then
      (cropPieces (width - columns piece) rest).map (piece :: ·)
    else (fitColumns width piece).map ([·])

/-- Pieces that are cropped to a width if they are too wide. -/
def crop (width : Nat) (pieces : List (List TextUnit)) :
    Except CutFailure (List (List TextUnit)) :=
  if width < columnsOfPieces pieces then cropPieces width pieces else .ok pieces

/-- Pieces that are cropped to a width, or followed by the blanks that they lack. -/
def fitPieces (width : Nat) (pieces : List (List TextUnit)) :
    Except CutFailure (List (List TextUnit)) :=
  if columnsOfPieces pieces < width then
    .ok (pieces ++ [blanks (width - columnsOfPieces pieces)])
  else crop width pieces

/-- The width of a screen. -/
def screenWidth : Nat := 5000

/-- Lines as they are printed. -/
def printed (lines : List (List TextUnit)) : Text := ⟨lines.flatMap (· ++ [.char '\n'])⟩

/-- Lines as they are printed, in pieces, where none may reach beyond the screen. -/
def printedPieces (lines : List (List (List TextUnit))) : Except CutFailure Text :=
  (lines.mapM (crop screenWidth)).map fun lines => printed (lines.map List.flatten)

/-- Text as it is printed where nothing may be cut off. -/
def paragraph (t : Styled) : Except LineProblem Text := do
  let lines ← (wrap .fold screenWidth .ok t).mapError .cut
  (printedPieces (← tellPieces lines)).mapError .cut

/-- Units as they are printed where no line is broken. -/
def unbroken (units : List TextUnit) : Text :=
  printed ((Styled.plain (dropControls units)).lines.map fun line => (expandTabs line).units)

end ProtoSchema.Screen

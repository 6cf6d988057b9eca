import ProtoSchema.Text.Basic

/-!
# Styled text

Text with spans that have a style. A screen without colours shows nothing of the styles, yet text is
measured and cut off piece by piece between the ends of spans. A text keeps its spans, also those
without any unit in them, until it is divided; a part has just the spans that hold a unit of it.
-/

namespace ProtoSchema.Screen

/-- A style that holds from one index of a text up to another one. -/
structure Span where
  start : Nat
  stop : Nat
  style : List TextUnit
  deriving DecidableEq, Repr

namespace Span

/-- What a span holds of the part of a text from one index up to another, if it is any unit. -/
def within? (s : Span) (start stop : Nat) : Option Span :=
  let part : Span := ⟨s.start - start, min s.stop stop - start, s.style⟩
  if part.start < part.stop then some part else none

/-- A span further behind. -/
def shift (s : Span) (distance : Nat) : Span := ⟨s.start + distance, s.stop + distance, s.style⟩

end Span

/-- Text with spans. -/
structure Styled where
  units : List TextUnit
  spans : List Span
  deriving DecidableEq, Repr

namespace Styled

/-- Text without spans. -/
def plain (units : List TextUnit) : Styled := ⟨units, []⟩

/-- Text with other units. Spans end where the units end, and those that begin there are gone. -/
def withUnits (t : Styled) (units : List TextUnit) : Styled :=
  if units.length < t.units.length then
    ⟨units, (t.spans.filter (·.start < units.length)).map fun s =>
      { s with stop := min s.stop units.length }⟩
  else { t with units }

/-- Text with more units behind it, into which the spans at its end go on. -/
def extend (t : Styled) (units : List TextUnit) : Styled :=
  ⟨t.units ++ units, t.spans.map fun s =>
    if t.units.length ≤ s.stop then { s with stop := s.stop + units.length } else s⟩

/-- Texts behind each other. -/
def append (t u : Styled) : Styled :=
  ⟨t.units ++ u.units, t.spans ++ u.spans.map (·.shift t.units.length)⟩

/-- The part of a text from one index up to another. -/
def part (t : Styled) (start stop : Nat) : Styled :=
  ⟨(t.units.take stop).drop start, t.spans.filterMap (·.within? start stop)⟩

/-- The parts of a text of some lengths, from an index on. -/
def partsFrom (t : Styled) (start : Nat) : List Nat → List Styled
  | [] => []
  | length :: rest => t.part start (start + length) :: t.partsFrom (start + length) rest

/-- The parts of a text of some lengths, which add up to it. -/
def divide (t : Styled) : List Nat → List Styled
  | [] | [_] => [t]
  | lengths => t.partsFrom 0 lengths

/-- The parts of a text between line feeds, from an index on; each is given by its length. -/
def linesFrom (t : Styled) (start : Nat) : List Nat → List Styled
  | [] => []
  | length :: rest => t.part start (start + length) :: t.linesFrom (start + length + 1) rest

/-- The lines of a text, which line feeds separate. -/
def lines (t : Styled) : List Styled :=
  match (t.units.splitOn (.char '\n')).map List.length with
  | [] | [_] => [t]
  | lengths => t.linesFrom 0 lengths

/-- Units cut at some indices, which increase; the first unit has the index `start`. -/
def cutAt (start : Nat) (units : List TextUnit) : List Nat → List (List TextUnit)
  | [] => [units]
  | index :: rest =>
    units.take (index - start) :: cutAt index (units.drop (index - start)) rest

/-- The pieces of a text between the ends of its spans. -/
def pieces (t : Styled) : List (List TextUnit) :=
  let ends := t.spans.flatMap fun s => [s.start, s.stop]
  let inner := (ends.filter fun i => 0 < i ∧ i < t.units.length).eraseDups
  cutAt 0 t.units (inner.mergeSort (· ≤ ·))

end Styled

end ProtoSchema.Screen

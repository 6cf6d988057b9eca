import ProtoSchema.Text.Basic
import ProtoSchema.Text.Columns

/-!
# Columns of a text

A text is shown in clusters: a unit that takes columns, with everything behind it that joins it. The
selector of pictographs widens the character before it, and a joiner swallows the unit behind it. A
text is cut only between clusters.
-/

namespace ProtoSchema

namespace TextUnit

/-- How many columns a unit takes by itself. -/
def columns : TextUnit → Nat
  | char c => charColumns c
  | stray _ => 1

/-- Whether the unit is a character that the selector of pictographs widens. -/
def isWidened : TextUnit → Bool
  | char c => ProtoSchema.isWidened c
  | stray _ => false

/-- Whether the unit is the selector of pictographs. -/
def isSelector (u : TextUnit) : Bool := u = char pictographSelector

/-- Whether the unit is the joiner of pictographs. -/
def isJoiner (u : TextUnit) : Bool := u = char pictographJoiner

end TextUnit

/-! ## Columns -/

/-- How many columns units take behind a unit `last` that may still be widened. -/
def columnsBehind (last : Option TextUnit) : List TextUnit → Nat
  | [] => 0
  | [u] =>
    if u.isJoiner then 0
    else if u.isSelector then if last.any TextUnit.isWidened then 1 else 0
    else u.columns
  | u :: v :: rest =>
    if u.isJoiner then columnsBehind last rest
    else if u.isSelector then
      (if last.any TextUnit.isWidened then 1 else 0) + columnsBehind none (v :: rest)
    else if u.columns = 0 then columnsBehind last (v :: rest)
    else u.columns + columnsBehind (some u) (v :: rest)

/-- How many columns units take on a screen. -/
def columns (units : List TextUnit) : Nat := columnsBehind none units

/-! ## Clusters -/

/-- Units that are shown together, and how many columns they take. -/
structure Cluster where
  units : List TextUnit
  columns : Nat
  deriving DecidableEq, Repr

namespace Cluster

/-- A unit by itself. -/
def ofUnit (u : TextUnit) : Cluster := ⟨[u], u.columns⟩

/-- A cluster with more units, which take no columns of their own. -/
def join (c : Cluster) (units : List TextUnit) : Cluster := { c with units := c.units ++ units }

/-- A cluster with the selector of pictographs, behind a unit `last` that may be widened. -/
def select (c : Cluster) (last : Option TextUnit) (selector : TextUnit) : Cluster :=
  ⟨c.units ++ [selector], if last.any TextUnit.isWidened then c.columns + 1 else c.columns⟩

/-- The clusters of units that follow a cluster, whose last unit that takes columns is `last`. -/
def behind (c : Cluster) (last : Option TextUnit) : List TextUnit → List Cluster
  | [] => [c]
  | [u] =>
    if u.isJoiner then [c.join [u]]
    else if u.isSelector then [c.select last u]
    else if u.columns = 0 then [c.join [u]]
    else [c, ofUnit u]
  | u :: v :: rest =>
    if u.isJoiner then (c.join [u, v]).behind last rest
    else if u.isSelector then
      (c.select last u).behind (last.filter fun l => ¬ l.isWidened) (v :: rest)
    else if u.columns = 0 then (c.join [u]).behind last (v :: rest)
    else c :: (ofUnit u).behind (some u) (v :: rest)

/-- The clusters of units. -/
def ofUnits : List TextUnit → List Cluster
  | [] => []
  | u :: rest =>
    if u.isJoiner ∨ u.isSelector ∨ u.columns = 0 then behind ⟨[u], 0⟩ none rest
    else (ofUnit u).behind (some u) rest

/-- The units of clusters that fit into some columns; a blank fills the half of a cluster that is
cut through. -/
def fit : Nat → List Cluster → List TextUnit
  | 0, _ | _, [] => []
  | room, c :: rest =>
    if c.columns ≤ room then c.units ++ fit (room - c.columns) rest else [.char ' ']

/-- The units of clusters in pieces of at most so many columns, given the columns and units of the
piece so far. -/
def piecesFrom (width used : Nat) (piece : List TextUnit) : List Cluster → List (List TextUnit)
  | [] => if used = 0 then [] else [piece]
  | c :: rest =>
    if width < used + c.columns then piece :: piecesFrom width c.columns c.units rest
    else piecesFrom width (used + c.columns) (piece ++ c.units) rest

end Cluster

/-- Why units cannot be cut at a column: no cluster takes any, or the clusters do not reach there. A
joiner at the beginning stands alone in a cluster, so that the clusters may take less columns than
the units. -/
inductive CutFailure
  | noColumns
  | notReached
  deriving DecidableEq, Repr

/-- The wording of a failure. -/
def CutFailure.message : CutFailure → String
  | noColumns => "division by zero"
  | notReached => "list index out of range"

/-- The units that fit into some columns, where there are too many. -/
def cutToColumns (room : Nat) (units : List TextUnit) : Except CutFailure (List TextUnit) :=
  let clusters := Cluster.ofUnits units
  let total := clusters.foldl (fun n cluster => n + cluster.columns) 0
  if room = 0 then .ok []
  else if total = 0 then .error .noColumns
  else if total < room then .error .notReached
  else .ok (Cluster.fit room clusters)

/-- Units that take as many columns as there are, cut off or filled up with blanks. -/
def fitColumns (width : Nat) (units : List TextUnit) : Except CutFailure (List TextUnit) :=
  if width < columns units then cutToColumns width units
  else if width = 0 then .ok []
  else .ok (units ++ List.replicate (width - columns units) (.char ' '))

/-- Units in pieces of at most so many columns. -/
def piecesOfColumns (width : Nat) (units : List TextUnit) : List (List TextUnit) :=
  Cluster.piecesFrom width 0 [] (Cluster.ofUnits units)

end ProtoSchema

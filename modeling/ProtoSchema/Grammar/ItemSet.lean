import ProtoSchema.Grammar.Tree

/-!
# Item sets

An item is a rule with a dot in it: the symbols before the dot have been read. The states of the
parser are sets of items. Such a set is closed by the rules of every nonterminal that may stand
next, and moving the dot over a symbol leads to the next set.
-/

namespace ProtoSchema

/-- A rule of which the first `dot` symbols have been read. -/
structure Item where
  rule : RuleName
  dot : Nat
  deriving DecidableEq

namespace Item

/-- The symbol behind the dot. -/
def next? (i : Item) : Option Symbol := i.rule.symbols[i.dot]?

/-- The item with the dot moved over one more symbol. -/
def advance (i : Item) : Item := { i with dot := i.dot + 1 }

/-- The rules of a nonterminal, nothing read. -/
def ofHead (n : Nonterminal) : List Item := (RuleName.ofHead n).map fun r => ⟨r, 0⟩

/-- The nonterminal behind the dot. -/
def nextNonterminal? (i : Item) : Option Nonterminal :=
  match i.next? with
  | some (.nonterminal n) => some n
  | _ => none

end Item

namespace Nonterminal

/-- The nonterminals that a rule of `n` may start with. -/
def firstNonterminals (n : Nonterminal) : List Nonterminal :=
  (Item.ofHead n).filterMap Item.nextNonterminal?

/-- Adds to a list of nonterminals everything that may start one of them, in at most `bound`
rounds. -/
def closeCorners : (bound : Nat) → List Nonterminal → List Nonterminal
  | 0, known => known
  | bound + 1, known =>
    let new := ((known.flatMap firstNonterminals).eraseDups).filter fun n => !known.contains n
    if new.isEmpty then known else closeCorners bound (known ++ new)

/-- The nonterminals that may stand at the left edge of what `n` derives, `n` included. As each
round adds a nonterminal, there are never more rounds than nonterminals. -/
def leftCorners (n : Nonterminal) : List Nonterminal := closeCorners all.length [n]

/-- The left corners of every nonterminal. -/
def leftCornerTable : List (Nonterminal × List Nonterminal) :=
  all.map fun n => (n, n.leftCorners)

end Nonterminal

/-- A set of items, given by those that have been reached by reading (or those of the whole
grammar's start) and the nonterminals whose rules belong to it besides. -/
structure ItemSet where
  kernel : List Item
  corners : List Nonterminal

namespace ItemSet

/-- The closed set of a kernel. -/
def ofKernel (kernel : List Item) : ItemSet where
  kernel := kernel
  corners :=
    ((kernel.filterMap Item.nextNonterminal?).flatMap fun n =>
      (Nonterminal.leftCornerTable.lookup n).getD []).eraseDups

/-- The set of the start: no rule of a whole file has been read into. -/
def start : ItemSet := ofKernel (Item.ofHead .schemaFile)

/-- All items of a set. -/
def items (s : ItemSet) : List Item := s.kernel ++ s.corners.flatMap Item.ofHead

/-- Adds an item to the kernel that is reached by a symbol. -/
def insertMove (moves : List (Symbol × List Item)) (symbol : Symbol) (item : Item) :
    List (Symbol × List Item) :=
  match moves with
  | [] => [(symbol, [item])]
  | (s, kernel) :: rest =>
    if s = symbol then (s, kernel ++ [item]) :: rest
    else (s, kernel) :: insertMove rest symbol item

/-- The symbols that may stand next, each with the kernel it leads to. -/
def moves (s : ItemSet) : List (Symbol × List Item) :=
  s.items.foldl
    (fun moves item =>
      match item.next? with
      | some symbol => insertMove moves symbol item.advance
      | none => moves)
    []

/-- Whether two kernels hold the same items. -/
def sameKernel (a b : List Item) : Bool := a.length == b.length && a.all b.contains

end ItemSet

end ProtoSchema

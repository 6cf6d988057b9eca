import ProtoSchema.Expression.Numeral

/-!
# Expressions

An expression of constants and names, as far as its value or the wording of a fault depends on it.
Neither lists nor subscripts occur, because a tag holds no brackets inside.
-/

namespace ProtoSchema

namespace Expression

/-- A constant. -/
inductive Constant
  | none
  | true
  | false
  | ellipsis
  | number (n : Number)
  | text
  | bytes
  deriving DecidableEq, Repr

/-- A form of expression that is no constant and no collection. -/
inductive Form
  | member
  | await
  | conditional
  | generator
  | keyedComprehension
  | lambda
  | named
  | operation
  | setComprehension
  | template
  | yield
  deriving DecidableEq, Repr

/-- The sort of an argument of a call. -/
inductive ArgumentSort
  | positional
  | named
  | unpacked
  deriving DecidableEq, Repr

end Expression

/-- An expression. -/
inductive Expression
  | constant (c : Expression.Constant)
  | name (spelling : List Char)
  | tuple (items : List Expression)
  | set (items : List Expression)
  /-- Entries with their keys; those that are to be taken over from a value have none. -/
  | dict (entries : List (Option Expression × Expression))
  | call (function : Expression) (arguments : List Expression.ArgumentSort)
  | starred (e : Expression)
  /-- A number with a sign before it. -/
  | signed (e : Expression)
  /-- A sum or a difference. -/
  | sum (left right : Expression)
  | comparison (left : Expression) (isMembership : Bool)
  | other (form : Expression.Form)

namespace Expression

/-- What a constant is called in the wording of a fault. -/
def Constant.description : Constant → String
  | none => "None"
  | true => "True"
  | false => "False"
  | ellipsis => "ellipsis"
  | number _ | text | bytes => "literal"

/-- What a form of expression is called in the wording of a fault. -/
def Form.description : Form → String
  | member => "attribute"
  | await => "await expression"
  | conditional => "conditional expression"
  | generator => "generator expression"
  | keyedComprehension => "dict comprehension"
  | lambda => "lambda"
  | named => "named expression"
  | operation => "expression"
  | setComprehension => "set comprehension"
  | template => "f-string expression"
  | yield => "yield expression"

/-- What an expression is called in the wording of a fault. -/
def description : Expression → String
  | constant c => c.description
  | name _ => "name"
  | tuple _ => "tuple"
  | set _ => "set display"
  | dict _ => "dict literal"
  | call _ _ => "function call"
  | starred _ => "starred"
  | signed _ | sum _ _ => "expression"
  | comparison _ _ => "comparison"
  | other form => form.description

mutual

/-- The first part of an expression to which nothing can be assigned, where it stands between `for`
and `in`. What is read there as a membership ends before its `in`. -/
def unassignable? : Expression → Option Expression
  | tuple items => firstUnassignable? items
  | starred e => e.unassignable?
  | comparison left isMembership => if isMembership then left.unassignable? else none
  | name _ | other .member => none
  | e => some e

/-- The first part of some expressions to which nothing can be assigned. -/
def firstUnassignable? : List Expression → Option Expression
  | [] => none
  | e :: rest => e.unassignable? <|> firstUnassignable? rest

end

end Expression

end ProtoSchema

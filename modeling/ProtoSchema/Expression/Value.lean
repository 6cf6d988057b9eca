import ProtoSchema.Decimal.Nearest
import ProtoSchema.Expression.Parse

/-!
# Values of expressions

An expression has a value if it is made of constants, tuples, sets and dictionaries. What is told
here is whether it has one, and why not.
-/

namespace ProtoSchema.Expression

/-- A collection that changes, so that it is no item of a set and no key of a dictionary. -/
inductive Collection
  | dict
  | set
  deriving DecidableEq, Repr

/-- The word for a collection. -/
def Collection.word : Collection → String
  | dict => "dict"
  | set => "set"

/-- Why an expression has no value. -/
inductive ValueFault
  | notConstant
  | noKey
  | changing (collection : Collection)
  | tooLarge
  deriving DecidableEq, Repr

/-- The wording of a fault. -/
def ValueFault.message : ValueFault → String
  | notConstant => "malformed node or string"
  | noKey => "malformed node or string: None"
  | changing collection => s!"unhashable type: '{collection.word}'"
  | tooLarge => "int too large to convert to float"

/-- The number that an expression spells without a sign. -/
def number? : Expression → Option Number
  | constant (.number n) => some n
  | _ => none

/-- The number that an expression spells, apart from its sign. -/
def signedNumber? : Expression → Option Number
  | signed e => e.number?
  | e => e.number?

/-- Checks a sum: a real number and an imaginary one. An integer has to be near to a double. -/
def checkSum (left right : Expression) : Except ValueFault Unit :=
  match left.signedNumber?, right.number? with
  | some (.integer n), some .imaginary => if (Decimal.ofInt? n).isNone then .error .tooLarge else .ok ()
  | some .real, some .imaginary => .ok ()
  | _, _ => .error .notConstant

/-- The collection that keeps a value from being an item or a key: the value itself, or the first
one in a tuple. -/
abbrev Changing := Option Collection

/-- Checks that a value can be an item or a key. -/
def checkItem : Changing → Except ValueFault Unit
  | some collection => .error (.changing collection)
  | none => .ok ()

mutual

/-- Whether an expression has a value, and whether that changes. -/
def value : Expression → Except ValueFault Changing
  | constant _ => .ok none
  | tuple items => tupleValue items
  | set items => do checkItems items; return some .set
  | dict entries => do checkEntries entries; return some .dict
  | call (name word) [] =>
    if word = "set".toList then .ok (some .set) else .error .notConstant
  | sum left right => do checkSum left right; return none
  | signed e => if e.number?.isSome then .ok none else .error .notConstant
  | _ => .error .notConstant

/-- Whether the items of a tuple have values, and the first of these that changes. -/
def tupleValue : List Expression → Except ValueFault Changing
  | [] => .ok none
  | e :: rest => do
    let first ← e.value
    let others ← tupleValue rest
    return first <|> others

/-- Checks the items of a set. -/
def checkItems : List Expression → Except ValueFault Unit
  | [] => .ok ()
  | e :: rest => do
    checkItem (← e.value)
    checkItems rest

/-- Checks the entries of a dictionary. -/
def checkEntries : List (Option Expression × Expression) → Except ValueFault Unit
  | [] => .ok ()
  | (none, _) :: _ => .error .noKey
  | (some key, e) :: rest => do
    let key ← key.value
    let _ ← e.value
    checkItem key
    checkEntries rest

end

end ProtoSchema.Expression

import ProtoSchema.Text.Capital

/-!
# Names

Full names are words joined by points. A name is looked up from the inside of its scope outwards, so
that the scope's own words are dropped one by one. A map field stands for a repeated field of a
message with a key and a value, which is named after the field.
-/

namespace ProtoSchema.Dotted

/-! ## Dotted names -/

/-- The words of a name; a point at either end leaves an empty word there. -/
def words (name : String) : List String := (name.toList.splitOn '.').map String.ofList

/-- The name with the given words. -/
def ofWords (ws : List String) : String := ".".intercalate ws

/-- A name inside a scope; the outermost scope is empty and adds nothing. -/
def join (scope name : String) : String := if scope.isEmpty then name else scope ++ "." ++ name

/-- The words of a scope; the outermost scope has none. -/
def scopeWords (scope : String) : List String := if scope.isEmpty then [] else words scope

/-- The leading parts of a list, from the whole list down to nothing. -/
def openings {α : Type} (xs : List α) : List (List α) :=
  (List.range (xs.length + 1)).reverse.map xs.take

/-- The full names of a package and of every package around it, outermost first. -/
def packages (name : String) : List String :=
  if name.isEmpty then [] else ((openings (words name)).dropLast.map ofWords).reverse

/-- The full names that a reference may stand for, in the order in which they are tried: inside
the innermost scope first. A reference that starts with a point is a full name already. -/
def candidates (scope name : String) : List String :=
  match name.toList with
  | '.' :: rest => [String.ofList rest]
  | _ => (openings (scopeWords scope)).map fun ws => ofWords (ws ++ [name])

/-- The scope that a full name stands in. -/
def enclosing (fullName : String) : String := ofWords (words fullName).dropLast

/-- A full name without the points before it. -/
def stripPoints (name : String) : String := String.ofList (name.toList.dropWhile (· = '.'))

end ProtoSchema.Dotted

namespace ProtoSchema.MapEntry

/-! ## Names of map entries

Each part of the name of the field between underscores starts with a capital letter, the underscores
are dropped, and `Entry` is added. -/

/-- The name without underscores; `starting` says whether the next letter starts a part. -/
def camelCase (starting : Bool) : List Char → List Char
  | [] => []
  | c :: cs =>
    if c = '_' then camelCase true cs
    else (if starting then capital c else [c]) ++ camelCase false cs

/-- The name of the entry message of a map field. -/
def name (field : String) : String := String.ofList (camelCase true field.toList) ++ "Entry"

end ProtoSchema.MapEntry

import ProtoSchema.Decimal.Shortest
import ProtoSchema.Decimal.Nearest
import ProtoSchema.Linker.Declare

/-!
# Defaults and packing

The options `default` and `packed` of a linked field. A default has to suit the type of its field;
one that does not is noted, and the field is left without. An integer beyond all doubles is no
default that a field of a floating type could refuse: it stops the linking.
-/

namespace ProtoSchema

/-- Why linking comes to no end: an integer default of a floating field exceeds every double, or an
extension is entered at a place that holds no field. -/
inductive LinkFailure
  | defaultOverflow
  | danglingExtension
  deriving DecidableEq, Repr

/-- The wording for a linking that comes to no end. -/
def LinkFailure.message : LinkFailure → String
  | defaultOverflow => "int too large to convert to float"
  | danglingExtension => "list index out of range"

/-- Why a field gets no default: there is a problem with it, or linking stops there. -/
inductive DefaultRefusal
  | problem (p : DefaultProblem)
  | failure (f : LinkFailure)
  deriving DecidableEq, Repr

/-- How a diagnostic refers to the value of an option. -/
def Value.description : Value → String
  | .int i => s!"'{i}'"
  | .float x => "'" ++ Decimal.floatText x ++ "'"
  | .ident name => s!"'{name}'"
  | .string _ => "a string"
  | .aggregate _ | .list _ => "an aggregate value"

/-- The number that a word stands for. -/
def floatWord? (word : String) : Option Float :=
  if word = "inf" then some (Decimal.infinity false)
  else if word = "nan" then some Decimal.notANumber
  else none

/-- The default that a value is for an integer type with the given bounds. -/
def Value.integerDefault (value : Value) (type : FieldType) (low high : Int) :
    Except DefaultProblem DefaultValue :=
  match value with
  | .int i =>
    if low ≤ i ∧ i ≤ high then .ok (.int i) else .error (.outOfRange i type.keyword)
  | v => .error (.notAnInteger type.keyword v.description)

/-- The default that a value is for a floating type. -/
def Value.floatDefault (value : Value) (type : FieldType) : Except DefaultRefusal DefaultValue :=
  let refusal := DefaultRefusal.problem (.notANumber type.keyword value.description)
  match value with
  | .int i =>
    match Decimal.ofInt? i with
    | some x => .ok (.float x)
    | none => .error (.failure .defaultOverflow)
  | .float x => .ok (.float x)
  | .ident word =>
    match floatWord? word with
    | some x => .ok (.float x)
    | none => .error refusal
  | _ => .error refusal

/-- The default that a value is for texts. -/
def Value.stringDefault : Value → Except DefaultProblem DefaultValue
  | .string text =>
    match text.toString? with
    | some s => .ok (.string s)
    | none => .error .invalidUtf8
  | v => .error (.notAString FieldType.string.keyword v.description)

/-- The default that a value is for bytes. -/
def Value.bytesDefault : Value → Except DefaultProblem DefaultValue
  | .string text => .ok (.bytes text.toBytes)
  | v => .error (.notAString FieldType.bytes.keyword v.description)

/-- The default that a value is for flags. -/
def Value.boolDefault (value : Value) : Except DefaultProblem DefaultValue :=
  match value.flag? with
  | some b => .ok (.bool b)
  | none => .error (.notABool value.description)

namespace Linker

/-- The place of an enum's first value. The values of all enums share one arena, in the order of the
enums. -/
def firstValuePlace (l : Linker) (enum : Nat) : Nat :=
  (l.enums.toList.take enum).foldl (fun n entry => n + entry.values.length) 0

/-- The default that a value is for an enum. -/
def enumDefault (l : Linker) (enum : Option Nat) (value : Value) :
    Except DefaultProblem DefaultValue :=
  match value, enum.bind fun place => (l.enums[place]?).map (place, ·) with
  | .ident name, some (place, entry) =>
    match entry.values.findIdx? (·.name = name) with
    | some i => .ok (.enumValue (l.firstValuePlace place + i))
    | none => .error (.unknownEnumValue entry.fullName name)
  | v, _ => .error (.notAnEnumValue v.description)

/-- The default that a value is for a type. -/
def convertDefault (l : Linker) (link : TypeLink) (value : Value) :
    Except DefaultRefusal DefaultValue :=
  match link.type.integerRange? with
  | some (low, high) => (value.integerDefault link.type low high).mapError .problem
  | none =>
    match link.type with
    | .float | .double => value.floatDefault link.type
    | .bool => value.boolDefault.mapError .problem
    | .string => value.stringDefault.mapError .problem
    | .bytes => value.bytesDefault.mapError .problem
    | _ => (l.enumDefault link.enumType value).mapError .problem

/-- The default of a field, if it may have one; a field of no known type has none. -/
def defaultOf (l : Linker) (f : FieldEntry) (label : Label) (value : Value) :
    Except DefaultRefusal (Option DefaultValue) :=
  if f.file.dialect = .proto3 then .error (.problem .inProto3)
  else if label = .repeated then .error (.problem .ofRepeated)
  else
    match f.link.type with
    | .message | .group => .error (.problem .ofMessage)
    | .unresolved => .ok none
    | _ => (l.convertDefault f.link value).map some

/-- The default that a field asks for; one that it cannot have is noted. -/
def fieldDefault (l : Linker) (f : FieldEntry) (label : Label) :
    Linker × Except LinkFailure (Option DefaultValue) :=
  match f.decl.option? "default" with
  | none => (l, .ok none)
  | some o =>
    match l.defaultOf f label o.value.value with
    | .ok d => (l, .ok d)
    | .error (.problem p) =>
      (l.report f.file (some o.position) (.badDefault f.fullName p), .ok none)
    | .error (.failure e) => (l, .error e)

/-- Whether a field is packed. Repeated numbers, flags and enums are packed in the newer dialect,
and where the option says so. -/
def fieldPacked (l : Linker) (f : FieldEntry) (label : Label) : Linker × Bool :=
  if label ≠ .repeated ∨ ¬ f.link.type.isPackable then (l, false)
  else
    let usual := decide (f.file.dialect = .proto3)
    match f.decl.option? "packed" with
    | none => (l, usual)
    | some o =>
      match o.value.value.flag? with
      | some b => (l, b)
      | none =>
        (l.report f.file (some o.position) (.badPacked f.fullName o.value.value.description),
          usual)

end Linker

end ProtoSchema

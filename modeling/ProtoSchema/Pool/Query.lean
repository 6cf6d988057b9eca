import ProtoSchema.Descriptor.Render
import ProtoSchema.Pool.Lifecycle

/-!
# Questions to a pool

Records are reached through handles. A handle of another pool, of an earlier generation or of
another kind is refused. Links that were not resolved are absent.
-/

namespace ProtoSchema

namespace Pool

/-! ## Records -/

/-- The handle for a place, as the pool would give it out now; nothing is checked. -/
def handle (kind : RecordKind) (place : Int) : Run Handle := do
  let p ← get
  return ⟨p.id, p.generation, kind, place⟩

/-- The handle for a place, if there is one. -/
def handle? (kind : RecordKind) : Option Nat → Run (Option Handle)
  | none => return none
  | some place => return some (← handle kind place)

/-- The place in an arena that a handle means: from the end if it is negative. -/
def place? (size : Nat) (place : Int) : Option Nat :=
  let place := if place < 0 then place + size else place
  if 0 ≤ place ∧ place < size then some place.toNat else none

/-- Whether a place is within the range of the numbers that count places. -/
def isCountable (place : Int) : Bool := -0x8000000000000000 ≤ place ∧ place < 0x8000000000000000

/-- The place of the record that a handle of a kind stands for, in the arena of that kind. -/
def locate {α : Type} (h : Handle) (kind : RecordKind) (arena : Tables → Array α) :
    Run (Nat × α) := do
  let records := arena (← tables)
  let p ← get
  if h.pool ≠ p.id ∨ h.generation ≠ p.generation then throw (.stale h p.id p.generation)
  if h.kind ≠ kind then throw (.wrongKind kind h.kind)
  match (place? records.size h.place).bind fun i => (records[i]?).map fun r => (i, r) with
  | some found => return found
  | none => throw (if isCountable h.place then .noRecord else .hugePlace)

/-- The record of a message. -/
def message (h : Handle) : Run MessageRecord := Prod.snd <$> locate h .message Tables.messages

/-- The record of a field. -/
def field (h : Handle) : Run FieldRecord := Prod.snd <$> locate h .field Tables.fields

/-- The record of an enum. -/
def enum (h : Handle) : Run EnumRecord := Prod.snd <$> locate h .enum Tables.enums

/-- The record of an enum value. -/
def enumValue (h : Handle) : Run EnumValueRecord :=
  Prod.snd <$> locate h .enumValue Tables.enumValues

/-- The record of a method. -/
def method (h : Handle) : Run MethodRecord := Prod.snd <$> locate h .method Tables.methods

/-! ## Lookups by full name -/

/-- The message of a full name. Points before the name are ignored. -/
def findMessage (name : String) : Run (Option Handle) := do
  handle? .message ((← tables).messagesByName.find? (Dotted.stripPoints name))

/-- The enum of a full name. -/
def findEnum (name : String) : Run (Option Handle) := do
  handle? .enum ((← tables).enumsByName.find? (Dotted.stripPoints name))

/-- The method of a full name. -/
def findMethod (name : String) : Run (Option Handle) := do
  handle? .method ((← tables).methodsByName.find? (Dotted.stripPoints name))

/-- The handles of all messages. Nested messages come behind the one they are nested in. -/
def messages : Run (List Handle) := do
  (List.range (← tables).messages.size).mapM fun place => handle .message (place : Nat)

/-- Calls a visitor, which may have a state of its own, with the handles of all messages, and counts
the calls. -/
def forEachMessage {σ : Type} (visit : Handle → StateT σ Run PUnit) : StateT σ Run Nat := do
  let places := List.range (← tables).messages.size
  places.forM fun place => do visit (← handle .message (place : Nat))
  return places.length

/-! ## Messages -/

/-- How many fields a message declares. Extensions do not count. -/
def messageFieldCount (h : Handle) : Run Nat := do return (← message h).fields.length

/-- The place at an index of some places; only the indexes of the list lead to one. -/
def atIndex (places : List Nat) (index : Int) : Option Nat :=
  if index < 0 then none else places[index.toNat]?

/-- The field at an index, in the order of declaration. -/
def messageField (h : Handle) (index : Int) : Run (Option Handle) := do
  handle? .field (atIndex (← message h).fields index)

/-- The field or extension of a number. -/
def messageFieldByNumber (h : Handle) (number : Int) : Run (Option Handle) := do
  handle? .field ((← message h).fieldsByNumber.find? number)

/-- The field of a name. -/
def messageFieldByName (h : Handle) (name : String) : Run (Option Handle) := do
  handle? .field ((← message h).fieldsByName.find? name)

/-! ## Fields -/

/-- The message that a field holds. -/
def fieldMessageType (h : Handle) : Run (Option Handle) := do
  handle? .message (← field h).messageType

/-- The enum that a field holds. -/
def fieldEnumType (h : Handle) : Run (Option Handle) := do
  handle? .enum (← field h).enumType

/-- The message that a field belongs to. -/
def fieldContainingType (h : Handle) : Run (Option Handle) := do
  handle? .message (← field h).containingType

/-- The classes of types whose explicit defaults are asked for together. -/
inductive DefaultClass
  | int32 | int64 | uint32 | uint64 | float | double | bool | string
  deriving DecidableEq, Repr

end Pool

/-- The class of a type. Enums and messages have none. -/
def FieldType.defaultClass? : FieldType → Option Pool.DefaultClass
  | int32 | sint32 | sfixed32 => some .int32
  | int64 | sint64 | sfixed64 => some .int64
  | uint32 | fixed32 => some .uint32
  | uint64 | fixed64 => some .uint64
  | float => some .float
  | double => some .double
  | bool => some .bool
  | string | bytes => some .string
  | unresolved | group | message | enum => none

namespace Pool

/-- The explicit default of a field whose type is of a class. -/
def explicitDefault (c : DefaultClass) (h : Handle) : Run (Option DefaultValue) := do
  let f ← field h
  return if f.type.defaultClass? = some c then f.default else none

/-- The default of an enum field: the explicit one, or else the first value of the enum. -/
def enumDefault (h : Handle) : Run (Option Handle) := do
  let f ← field h
  match f.type, f.enumType with
  | .enum, some place =>
    match f.default with
    | some (.enumValue value) => handle? .enumValue (some value)
    | _ => handle? .enumValue (((← tables).enums[place]?).bind fun e => e.values.head?)
  | _, _ => return none

/-- What stands in for an absent field: a value, or the handle of an enum value. -/
inductive Substitute
  | value (d : DefaultValue)
  | enumValue (h : Handle)

/-- The zero of a type. -/
def zero? : FieldType → Option DefaultValue
  | .double | .float => some (.float 0)
  | .bool => some (.bool false)
  | .string => some (.string "")
  | .bytes => some (.bytes [])
  | .unresolved | .message | .group | .enum => none
  | _ => some (.int 0)

/-- What stands in for a field that is absent: its default, or else the zero of its type. Nothing
stands in for a message. -/
def substitute (h : Handle) : Run (Option Substitute) := do
  let f ← field h
  if f.type = .enum then return (← enumDefault h).map .enumValue
  else return (f.default <|> zero? f.type).map .value

/-! ## Enums and methods -/

/-- How many values an enum has. -/
def enumValueCount (h : Handle) : Run Nat := do return (← enum h).values.length

/-- The value at an index, in the order of declaration. -/
def enumValueAt (h : Handle) (index : Int) : Run (Option Handle) := do
  handle? .enumValue (atIndex (← enum h).values index)

/-- The first value with a number. -/
def enumValueByNumber (h : Handle) (number : Int) : Run (Option Handle) := do
  handle? .enumValue ((← enum h).valuesByNumber.find? number)

/-- The value of a name. -/
def enumValueByName (h : Handle) (name : String) : Run (Option Handle) := do
  handle? .enumValue ((← enum h).valuesByName.find? name)

/-- The message that a method takes. -/
def methodInput (h : Handle) : Run (Option Handle) := do
  handle? .message (← method h).inputType

/-- The message that a method gives back. -/
def methodOutput (h : Handle) : Run (Option Handle) := do
  handle? .message (← method h).outputType

/-! ## Schema text -/

/-- The literal for the explicit default of a field. -/
def defaultLiteral (h : Handle) : Run (Option String) := do
  let f ← field h
  return (← tables).defaultLiteral? f

/-- The text of a message. -/
def render (h : Handle) : Run Text := do
  let m ← message h
  return (← tables).render m

end Pool

end ProtoSchema

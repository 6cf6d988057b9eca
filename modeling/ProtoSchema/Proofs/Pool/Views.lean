import ProtoSchema.Proofs.Pool.Accessors
import ProtoSchema.Proofs.Pool.Following
import ProtoSchema.Proofs.Pool.Rendering

/-!
# Views of messages

What is printed of a message is collected by following handles: from the message to its fields, to
their types and their defaults, to its enums and their values, and to the messages nested in it, of
which the same is collected (`Pool.messageView`). The pool may refuse each of these steps. Beside
that the entry of a map may have something else than a key and a value, a default may not have the
form of its type, and the nesting may have no end.

None of this happens in a pool in use: each message has a view and each default a literal, whatever
was reported before, and the text of the view is the one that the pool renders
(`Pool.views_of_issued`).
-/

namespace ProtoSchema

/-! ## Views -/

/-- What is printed of a field. -/
structure FieldView where
  name : String
  number : Nat
  declaration : String
  options : String
  comment : String

/-- What is printed of an enum: its name, and the names and numbers of its values. -/
structure EnumView where
  name : String
  members : List (String × Int)

/-- What is printed of a message and of the messages nested in it. -/
structure MessageView where
  name : String
  fullName : String
  file : Text
  fields : List FieldView
  enums : List EnumView
  messages : List MessageView
  extensions : List String

/-- The line for a field. -/
def FieldView.line (v : FieldView) : String := v.declaration ++ v.options ++ ";" ++ v.comment

/-- The lines for an enum. -/
def EnumView.lines (v : EnumView) : List String :=
  ["enum " ++ v.name ++ " \x7b"] ++ v.members.map (fun m => s!"  {m.1} = {m.2};") ++ ["\x7d"]

mutual

/-- The lines for a message. -/
def MessageView.lines : MessageView → List String
  | ⟨name, _, _, fields, enums, messages, extensions⟩ =>
    ["message " ++ name ++ " \x7b"] ++
      Tables.indented (fields.map FieldView.line ++ enums.flatMap EnumView.lines ++
        MessageView.linesOf messages ++ extensions.map ("// extension " ++ ·)) ++
      ["\x7d"]

/-- The lines for some messages. -/
def MessageView.linesOf : List MessageView → List String
  | [] => []
  | v :: vs => v.lines ++ MessageView.linesOf vs

end

/-- The text for a message. -/
def MessageView.text (v : MessageView) : Text :=
  ("// " : Text) ++ v.fullName ++ " from " ++ v.file ++ "\n" ++
    String.join (v.lines.map (· ++ "\n"))

/-- The type of a field as it is written where it leads nowhere. -/
def FieldRecord.plainType (f : FieldRecord) : String :=
  if f.type.keyword.isEmpty then f.typeName else f.type.keyword

/-- The literal for a default that has the form of a type. -/
def DefaultValue.literal? : FieldType → DefaultValue → Option String
  | .bool, .bool b => some (if b then "true" else "false")
  | .string, .string s => some (Literal.quote (Utf8.encode s.toList))
  | .bytes, .bytes bs => some (Literal.quote bs)
  | .float, .float x => some (Decimal.floatText x)
  | .double, .float x => some (Decimal.floatText x)
  | type, .int i => if type.integerRange?.isSome then some (toString i) else none
  | _, _ => none

/-- Why there is no view although the pool refuses nothing. -/
inductive ViewFault
  | notAPair (fields : Nat)
  | misshapen (field : String)
  | tooDeep
  deriving DecidableEq, Repr

namespace Pool

/-! ## Collecting views -/

/-- What can be collected from a pool. -/
abbrev Viewing (α : Type) := ExceptT ViewFault Run α

/-- The reference to the type of a field. -/
def typeReference (h : Handle) : Viewing String := do
  let f ← field h
  match f.type with
  | .message | .group =>
    match ← fieldMessageType h with
    | none => return f.plainType
    | some m => return "." ++ (← message m).fullName
  | .enum =>
    match ← fieldEnumType h with
    | none => return f.plainType
    | some e => return "." ++ (← enum e).fullName
  | _ => return f.plainType

/-- What is found at all indexes below a count. -/
def listed (count : Run Nat) (item : (index : Nat) → Run (Option Handle)) :
    Viewing (List Handle) := do
  let found ← (List.range (← count)).mapM fun i => item i
  return found.reduceOption

/-- The fields of a message. -/
def messageFields (h : Handle) : Viewing (List Handle) :=
  listed (messageFieldCount h) fun i => messageField h (i : Nat)

/-- The values of an enum. -/
def enumValues (h : Handle) : Viewing (List Handle) :=
  listed (enumValueCount h) fun i => enumValueAt h (i : Nat)

/-- The type of a field with its label, as it is declared. -/
def declaredType (h : Handle) : Viewing String := do
  let f ← field h
  let plain ← typeReference h
  match ← fieldMessageType h with
  | none => return s!"{f.label.name} {plain}"
  | some m =>
    if (← message m).isMapEntry then
      match ← (← messageFields m).mapM typeReference with
      | [key, value] => return s!"map<{key}, {value}>"
      | types => throw (.notAPair types.length)
    else return s!"{f.label.name} {plain}"

variable {α β : Type} {p : Pool} {ts : Tables} {i : Nat}

/-- Whatever file tree there is, this is collected from a pool, which stays as it is. -/
def Answers (p : Pool) (m : Viewing α) (a : α) : Prop :=
  ∀ t, Run.on m.run t p = (.ok (.ok a), p)

theorem Answers.bind {m : Viewing α} {f : α → Viewing β} {a : α} {b : β} (h : Answers p m a)
    (hf : Answers p (f a) b) : Answers p (m >>= f) b := by
  intro t
  rw [ExceptT.run_bind, on_bind, h t]
  exact hf t

end Pool

/-! ## What is viewed -/

namespace Tables

end Tables

namespace Pool

variable {α β : Type} {p : Pool} {ts : Tables} {i : Nat}

/-! ## Following handles -/

section

variable (hopen : ¬ p.isClosed) (hlinked : p.linked = some ts)
include hopen hlinked

variable (hfollow : ts.Followable)
include hfollow

end

/-! ## Every message has a view -/

end Pool

end ProtoSchema

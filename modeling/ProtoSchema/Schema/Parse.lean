import ProtoSchema.Descriptor.FieldType
import ProtoSchema.Grammar.Machine

/-!
# Schema files from texts

A text is a schema file if the grammar derives it, its literals are well formed, and its fields
keep the rules of its dialect. Faults of the first sort win over those of the second, and these over
those of the third.
-/

namespace ProtoSchema

/-! ## The rules of the dialects -/

/-- The rule that a field of a dialect breaks, if any. Maps only have to have a proper key, and
members of a oneof are free. -/
def FieldDecl.problem? (dialect : Dialect) (f : FieldDecl) : Option SourceProblem :=
  match f.shape with
  | .map key _ _ => if FieldType.isMapKeyName key then none else some (.badMapKey f.name key)
  | _ =>
    if f.oneof.isSome then none
    else
      match dialect with
      | .proto2 => if f.label.isNone then some (.missingLabel f.name) else none
      | .proto3 =>
        if f.label = some .required then some (.requiredField f.name)
        else
          match f.shape with
          | .group type => some (.groupField type)
          | _ => none

/-- The fault of a field, at the field's name. -/
def FieldDecl.fault? (dialect : Dialect) (f : FieldDecl) : Option Fault :=
  (f.problem? dialect).map fun p => ⟨p, f.position⟩

/-- The first fault of the fields of some extend blocks. -/
def ExtendDecl.fault? (dialect : Dialect) (blocks : List ExtendDecl) : Option Fault :=
  (blocks.flatMap ExtendDecl.fields).findSome? (FieldDecl.fault? dialect)

mutual

/-- The first fault of a message: in its own fields, in its extend blocks, then in the messages
nested in it. -/
def MessageDecl.fault? (dialect : Dialect) : MessageDecl → Option Fault
  | ⟨_, fields, messages, _, extendBlocks, _, _, _, _, _, _⟩ =>
    fields.findSome? (FieldDecl.fault? dialect) <|>
      ExtendDecl.fault? dialect extendBlocks <|> MessageDecl.firstFault? dialect messages

/-- The first fault of a list of messages. -/
def MessageDecl.firstFault? (dialect : Dialect) : List MessageDecl → Option Fault
  | [] => none
  | m :: ms => m.fault? dialect <|> MessageDecl.firstFault? dialect ms

end

namespace SchemaFile

/-- The first fault of a file against the rules of its dialect. -/
def fault? (f : SchemaFile) : Option Fault :=
  MessageDecl.firstFault? f.dialect f.messages <|> ExtendDecl.fault? f.dialect f.extendBlocks

/-- The schema file of a name and text, or the first fault of the text. -/
def parse (name : Text) (text : List Char) : Except Fault SchemaFile := do
  let tree ← derive text
  let file ← tree.value
  match fault? file with
  | some fault => .error fault
  | none => .ok { file with name }

end SchemaFile

end ProtoSchema

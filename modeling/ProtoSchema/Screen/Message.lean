import ProtoSchema.Screen.Line
import ProtoSchema.Screen.Pictograph
import ProtoSchema.Text.Basic

/-!
# Messages on a screen

A message is shown in one piece, whatever its length. Names of pictographs are shown as pictographs,
while brackets have no meaning in it. What a command prints holds no control sequences, as its output
need not go to a terminal.
-/

namespace ProtoSchema.Screen

/-! ## Control sequences

A control sequence tells a terminal to change how it shows text. It begins with the escape character
and a bracket; parameters, separators and a final character follow. -/

namespace ControlSequence

/-- Whether a unit is a character of a code from `first` to `last`. -/
def isWithin (first last : Nat) : TextUnit → Bool
  | .char c => first ≤ c.toNat ∧ c.toNat ≤ last
  | .stray _ => false

/-- Whether a unit is a parameter of a control sequence. -/
def isParameter (u : TextUnit) : Bool := isWithin 0x30 0x3F u

/-- Whether a unit separates the parameters from the final character. -/
def isSeparator (u : TextUnit) : Bool := isWithin 0x20 0x2F u

/-- Whether a unit is the final character of a control sequence. -/
def isFinal (u : TextUnit) : Bool := isWithin 0x40 0x7E u

/-- What is left of units behind the bracket of a control sequence, if it is complete. -/
def rest? (units : List TextUnit) : Option (List TextUnit) :=
  match (units.dropWhile isParameter).dropWhile isSeparator with
  | u :: rest => if isFinal u then some rest else none
  | [] => none

theorem length_lt_of_rest? {units rest : List TextUnit} (h : rest? units = some rest) :
    rest.length < units.length := by
  unfold rest? at h
  split at h
  · next u tail heq =>
    split at h
    · cases h
      have h1 := (List.dropWhile_sublist (p := isSeparator)
        (l := units.dropWhile isParameter)).length_le
      have h2 := (List.dropWhile_sublist (p := isParameter) (l := units)).length_le
      rw [heq] at h1
      simp only [List.length_cons] at h1
      omega
    · cases h
  · cases h

end ControlSequence

/-- Units without the control sequences in them. -/
def dropControlSequences : List TextUnit → List TextUnit
  | [] => []
  | [u] => [u]
  | u :: v :: rest =>
    if u = .char '\x1b' ∧ v = .char '[' then
      match h : ControlSequence.rest? rest with
      | some behind =>
        have := ControlSequence.length_lt_of_rest? h
        dropControlSequences behind
      | none => u :: dropControlSequences (v :: rest)
    else u :: dropControlSequences (v :: rest)
  termination_by units => units.length

/-- A text as a command prints it. -/
def plainOutput (t : Text) : Text := ⟨dropControlSequences t.units⟩

/-! ## Messages -/

/-- What is shown of a message. -/
def shownMessage (message : Text) : Text := unbroken (showPictographs message.units)

end ProtoSchema.Screen

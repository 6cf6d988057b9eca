import ProtoSchema.Expression.Fault

/-!
# Reading tokens by rules

A reader takes tokens from a place on and finds a value, finds nothing, or refuses the text for a
fault. Of several readers the first one that finds something counts, and one that finds nothing may
settle that the others are not tried. What the larger rules find at a place is remembered.

The same text can be read twice: first by the rules of the language, then also by those that explain
what is wrong.
-/

namespace ProtoSchema.Expression

/-- The rules whose findings are remembered. -/
inductive Rule
  | arguments
  | awaited
  | bitAnd
  | bitOr
  | bitXor
  | conjunction
  | disjunction
  | expression
  | factor
  | inversion
  | misnamed
  | primary
  | quotations
  | shift
  | starExpression
  | starTarget
  | sum
  | target
  | targetPrimary
  | term
  deriving DecidableEq, Repr

/-- What a rule found at a place: an expression and the place behind it, or nothing. -/
structure Memory where
  rule : Rule
  finding : Option (Expression × Nat)

/-- Where reading is: the place of the next token, how many tokens were asked for, whether faults
are to be explained, and what is remembered of each place. -/
structure Progress where
  place : Nat
  reached : Nat
  explains : Bool
  memories : Array (List Memory)

/-- What a reader comes to. -/
inductive Outcome (α : Type)
  | found (value : α) (next : Progress)
  | nothing (settled : Bool) (next : Progress)
  | refused (fault : Fault) (next : Progress)

/-- A reader of tokens. -/
def Reader (α : Type) : Type := Source → Progress → Outcome α

namespace Reader

variable {α β : Type}

instance : Monad Reader where
  pure value := fun _ p => .found value p
  bind read next := fun source p =>
    match read source p with
    | .found value p => next value source p
    | .nothing settled p => .nothing settled p
    | .refused fault p => .refused fault p

/-! ## Tokens -/

/-- Takes a token. One that cannot be read refuses the text. -/
def next : Reader Token := fun source p =>
  let place := p.place
  let p := { p with reached := max p.reached (place + 1) }
  match source.tokens[place]? with
  | some token => .found token { p with place := place + 1 }
  | none =>
    match source.stop? with
    | some stop => .refused (.token stop.fault) p
    | none => .nothing false p

/-- Finds nothing. -/
def nothing : Reader α := fun _ p => .nothing false p

/-- Finds nothing and settles that there is nothing. -/
def settle : Reader α := fun _ p => .nothing true p

/-- Refuses the text. -/
def refuse (fault : Fault) : Reader α := fun _ p => .refused fault p

/-- Takes a token of a kind. -/
def ofKind (kind : TokenKind) : Reader (List Char) := do
  let token ← next
  if token.kind = kind then return token.text else nothing

/-- Takes a name. -/
def identifier : Reader (List Char) := ofKind .name

/-- Takes a mark or a keyword. -/
def mark (spelling : String) : Reader Unit := do
  let token ← next
  if (token.kind = .mark ∨ token.kind = .keyword) ∧ token.text = spelling.toList then return ()
  else nothing

/-- The number of brackets that are open behind the last token. -/
def depth : Reader Nat := fun source p =>
  .found ((source.tokens[p.place - 1]?.map Token.depth).getD 0) p

/-! ## Choice and repetition -/

/-- What the first of some readers finds that finds something. -/
def first : List (Reader α) → Reader α
  | [] => nothing
  | read :: others => fun source p =>
    let place := p.place
    match read source p with
    | .nothing false p => first others source { p with place }
    | .nothing true p => .nothing false { p with place }
    | outcome => outcome

/-- Where a reader finds nothing, settles that there is nothing. -/
def settled (read : Reader α) : Reader α := fun source p =>
  match read source p with
  | .nothing _ p => .nothing true p
  | outcome => outcome

/-- What a reader finds, if it finds something. -/
def optional (read : Reader α) : Reader (Option α) := first [some <$> read, pure none]

/-- Whether a reader finds something; no token is taken. -/
def finds (read : Reader α) : Reader Bool := fun source p =>
  let place := p.place
  match read source p with
  | .found _ p => .found true { p with place }
  | .nothing _ p => .found false { p with place }
  | .refused fault p => .refused fault p

/-- Goes on only where a reader would find something. -/
def ahead (read : Reader α) : Reader Unit := do
  if ← finds read then return () else nothing

/-- Goes on only where a reader would find nothing. -/
def notAhead (read : Reader α) : Reader Unit := do
  if ← finds read then nothing else return ()

/-- Changes a value with what a reader finds, again and again, at most so many times. -/
def repeatUpTo (read : β → Reader β) : Nat → β → Reader β
  | 0, value => pure value
  | count + 1, value => do
    match ← optional (read value) with
    | some value => repeatUpTo read count value
    | none => return value

/-- Changes a value with what a reader finds, again and again. A reader that finds something takes a
token, so that there are at most as many findings as tokens. -/
def iterate (read : β → Reader β) (value : β) : Reader β := fun source p =>
  repeatUpTo read source.tokens.size value source p

/-- What a reader finds, again and again. -/
def many (read : Reader α) : Reader (List α) := do
  let found ← iterate (fun found => do return (← read) :: found) []
  return found.reverse

/-- What a reader finds once or more. -/
def oneOrMore (read : Reader α) : Reader (List α) := do
  let first ← read
  return first :: (← many read)

/-- What a reader finds once or more, with commas between. -/
def list (read : Reader α) : Reader (List α) := do
  let first ← read
  return first :: (← many do mark ","; read)

/-! ## Explanation and memory -/

/-- A reader that only reads to explain a fault. -/
def explaining (read : Reader α) : Reader α := fun source p =>
  if p.explains then read source p else .nothing false p

/-- A reader that does not explain faults. -/
def silently (read : Reader α) : Reader α := fun source p =>
  let explains := p.explains
  match read source { p with explains := false } with
  | .found value p => .found value { p with explains }
  | .nothing settled p => .nothing settled { p with explains }
  | .refused fault p => .refused fault { p with explains }

/-- What a rule finds, which is remembered. -/
def remembered (rule : Rule) (read : Reader Expression) : Reader Expression := fun source p =>
  let place := p.place
  let remember (finding : Option (Expression × Nat)) (p : Progress) : Progress :=
    { p with memories := p.memories.modify place (⟨rule, finding⟩ :: ·) }
  match (p.memories[place]?.getD []).find? (·.rule = rule) with
  | some ⟨_, some (found, next)⟩ => .found found { p with place := next }
  | some ⟨_, none⟩ => .nothing false p
  | none =>
    match read source p with
    | .found found p => .found found (remember (some (found, p.place)) p)
    | .nothing _ p => .nothing false (remember none p)
    | .refused fault p => .refused fault p

end Reader

end ProtoSchema.Expression

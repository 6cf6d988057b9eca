import ProtoSchema.Expression.Value
import ProtoSchema.Literal.Integer
import ProtoSchema.Screen.Line
import ProtoSchema.Screen.Pictograph
import ProtoSchema.Text.Words

/-!
# Text with tags

A tag in brackets sets the style of the text up to its closing tag, or up to the end. A closing tag
names the style it closes; without a name it closes the tag that was opened last. A backslash before
a tag makes text of it. Tags are not shown, and names of pictographs are.
-/

namespace ProtoSchema.Screen

/-! ## Parameters of an action

A tag may ask for an action instead of a style. What follows its equals sign is an expression, or
the name of a handler with the expression of its arguments in parentheses. That expression has to
have a value. -/

/-- What is wrong with the parameters of an action. -/
inductive ActionProblem
  /-- They hold an expression with a fault. -/
  | fault (parameters : List TextUnit) (expression : List Char) (fault : Expression.Fault)
  /-- Their expression has no value. -/
  | value (parameters : List TextUnit) (fault : Expression.ValueFault)
  /-- The units of their expression from a position to another one are stray bytes. -/
  | stray (parameters : List TextUnit) (byte : UInt8) (first last : Nat)
  /-- Their expression holds the character zero. -/
  | zero (parameters : List TextUnit)
  deriving DecidableEq, Repr

/-- The wording of a problem. -/
def ActionProblem.message : ActionProblem → Text
  | fault parameters expression cause =>
    s!"error parsing {Quoted.string (String.ofList expression)} in " ++ Quoted.text ⟨parameters⟩ ++
      "; " ++ cause.message
  | value parameters cause => s!"error parsing {Quoted.text ⟨parameters⟩}; {cause.message}"
  | stray parameters byte first last =>
    let place :=
      if first = last then
        "character '" ++ Quoted.unit '\'' (.stray byte) ++ s!"' in position {first}"
      else s!"characters in position {first}-{last}"
    s!"error parsing {Quoted.text ⟨parameters⟩}; 'utf-8' codec can't encode {place}: " ++
      "surrogates not allowed"
  | zero parameters =>
    s!"error parsing {Quoted.text ⟨parameters⟩}; source code string cannot contain null bytes"

namespace Action

/-- Whether a unit may stand in the name of a handler. -/
def isOfHandler : TextUnit → Bool
  | .char c => isOfWord c ∨ c = '.'
  | .stray _ => false

/-- The expression in parameters. A handler without arguments has an empty tuple of them. -/
def expression (parameters : List TextUnit) : List TextUnit :=
  let trimmed := Words.trim parameters
  let rest := trimmed.dropWhile isOfHandler
  let isCall := rest.head? = some (.char '(') ∧ 2 ≤ rest.length ∧
    rest.getLast? = some (.char ')') ∧ ¬ rest.contains (.char '\n')
  if rest = [] then [.char '(', .char ')'] else if isCall then rest else trimmed

/-- Checks that the expression in parameters has a value. -/
def check (parameters : List TextUnit) : Except ActionProblem Unit :=
  let units := expression parameters
  match units.dropWhile (·.char?.isSome) with
  | .stray byte :: rest =>
    let first := units.length - rest.length - 1
    let more := rest.takeWhile (·.char?.isNone)
    .error (.stray parameters byte first (first + more.length))
  | _ =>
    let text := units.filterMap TextUnit.char?
    if text.contains '\x00' then .error (.zero parameters)
    else
      match Expression.ofText text with
      | .error fault => .error (.fault parameters text fault)
      | .ok e =>
        match e.value with
        | .error fault => .error (.value parameters fault)
        | .ok _ => .ok ()

end Action

/-! ## Tags -/

/-- What stands between brackets: a name, and what follows an equals sign. -/
structure Tag where
  name : List TextUnit
  parameter : Option (List TextUnit)
  deriving DecidableEq, Repr

namespace Tag

/-- The tag that units between brackets spell. -/
def ofUnits (units : List TextUnit) : Tag :=
  let name := units.takeWhile (· ≠ .char '=')
  ⟨name, (units.drop name.length).tail?⟩

/-- A tag as it is written. -/
def text (t : Tag) : Text :=
  match t.parameter with
  | none => ("[" : Text) ++ ⟨t.name⟩ ++ "]"
  | some parameter => ("[" : Text) ++ ⟨t.name⟩ ++ "=" ++ ⟨parameter⟩ ++ "]"

/-- The style that a tag asks for. -/
def style (t : Tag) : List TextUnit :=
  match t.parameter with
  | none => t.name
  | some parameter => t.name ++ .char ' ' :: parameter

/-- Whether a tag asks for an action instead of a style. -/
def isAction (t : Tag) : Bool := t.name.head? = some (.char '@')

/-- The name that a closing tag closes, if it is one. -/
def closed? (t : Tag) : Option (List TextUnit) :=
  match t.name with
  | .char '/' :: name => some (Words.trim name)
  | _ => none

end Tag

/-- What is wrong with tags. -/
inductive MarkupProblem
  | neverOpened (tag : Tag) (position : Nat)
  | nothingOpen (position : Nat)
  | action (problem : ActionProblem)
  deriving DecidableEq, Repr

/-- The wording of a problem. -/
def MarkupProblem.message : MarkupProblem → Text
  | neverOpened tag position =>
    ("closing tag '" : Text) ++ tag.text ++ s!"' at position {position} doesn't match any open tag"
  | nothingOpen position => s!"closing tag '[/]' at position {position} has nothing to close"
  | action problem => problem.message

/-- Why something cannot be shown. -/
inductive ShowProblem
  | markup (problem : MarkupProblem)
  | line (problem : LineProblem)
  deriving DecidableEq, Repr

/-- The wording of a problem. -/
def ShowProblem.message : ShowProblem → Text
  | markup problem => problem.message
  | line (.cut failure) => failure.message
  | line (.style _) => (BadNumeral.mk 10 []).message

namespace Markup

/-! ## Parts -/

/-- A part of a text: some text, or a tag at a position. -/
inductive Part
  | text (units : List TextUnit)
  | tag (tag : Tag) (position : Nat)
  deriving DecidableEq, Repr

/-- Whether a unit may stand first between brackets. -/
def beginsTag : TextUnit → Bool
  | .char c => ('a' ≤ c ∧ c ≤ 'z') ∨ c = '#' ∨ c = '/' ∨ c = '@'
  | .stray _ => false

/-- Whether a unit may stand between brackets. -/
def isOfTag (u : TextUnit) : Bool := u ≠ .char '[' ∧ u ≠ .char ']'

/-- What stands between the brackets at the beginning of units, if they make a tag. -/
def tagAt? : List TextUnit → Option (List TextUnit)
  | .char '[' :: u :: rest =>
    let body := rest.takeWhile isOfTag
    if beginsTag u ∧ (rest.drop body.length).head? = some (.char ']') then some (u :: body)
    else none
  | _ => none

/-- A tag takes up its brackets as well. -/
theorem length_le_of_tagAt? {units inside : List TextUnit} (h : tagAt? units = some inside) :
    inside.length + 2 ≤ units.length := by
  unfold tagAt? at h
  split at h
  · next u rest =>
    simp only at h
    split at h
    · next hb =>
      cases h
      have hlt : (rest.takeWhile isOfTag).length < rest.length := by
        have hne : rest.drop (rest.takeWhile isOfTag).length ≠ [] := by
          intro he
          simp [he] at hb
        simpa using hne
      simp only [List.length_cons]
      omega
    · cases h
  · cases h

/-- A part of some text, unless there is none. -/
def textPart (units : List TextUnit) : List Part := if units = [] then [] else [.text units]

/-- The parts of units that stand at a position behind the text `before`, which is in reverse. Of
the backslashes before a tag, each two stand for one, and one that is left makes text of the tag. -/
def partsBehind (before : List TextUnit) (position : Nat) (units : List TextUnit) : List Part :=
  let slashes := units.takeWhile (· = .char '\\')
  let place := position + slashes.length
  match ht : tagAt? (units.drop slashes.length) with
  | some inside =>
    let length := inside.length + 2
    let part : Part :=
      if slashes.length % 2 = 0 then .tag (.ofUnits inside) place
      else .text ((units.drop slashes.length).take length)
    have := length_le_of_tagAt? ht
    textPart before.reverse ++ textPart (List.replicate (slashes.length / 2) (.char '\\')) ++
      part :: partsBehind [] (place + length) (units.drop (slashes.length + length))
  | none =>
    match hr : units.drop slashes.length with
    | [] => textPart (before.reverse ++ slashes)
    | u :: rest =>
      have := congrArg List.length hr
      partsBehind (u :: slashes ++ before) (place + 1) rest
  termination_by units.length
  decreasing_by
  · simp only [List.length_drop] at this ⊢
    omega
  · simp only [List.length_drop, List.length_cons] at this
    omega

/-- The parts of units. -/
def parts (units : List TextUnit) : List Part := partsBehind [] 0 units

/-! ## Showing -/

/-- Text in which no backslash stands before a bracket. -/
def unescape : List TextUnit → List TextUnit
  | .char '\\' :: .char '[' :: rest => .char '[' :: unescape rest
  | u :: rest => u :: unescape rest
  | [] => []

/-- The normal form of the style of a tag. -/
def normalForm (name : List TextUnit) : Except ShowProblem (List TextUnit) :=
  (Style.normalForm name).mapError fun failure => .line (.style failure)

/-- A tag that is open, and the index at which it was opened. -/
structure OpenTag where
  start : Nat
  tag : Tag
  deriving DecidableEq, Repr

/-- The text that is shown, the tags that are open and the spans of those that were closed, the last
ones first. -/
structure Progress where
  shown : List TextUnit
  openTags : List OpenTag
  spans : List Span

namespace Progress

/-- The text with a span that ends where the text ends. -/
def withSpan (p : Progress) (start : Nat) (style : List TextUnit) : Progress :=
  { p with spans := ⟨start, p.shown.length, style⟩ :: p.spans }

/-- The text with the span of a tag that is left open. -/
def leave (p : Progress) (openTag : OpenTag) : Progress :=
  p.withSpan openTag.start openTag.tag.style

/-- The text with the span of a tag that is closed. The parameters of an action are looked at only
then; its span has no style. -/
def close (p : Progress) (openTag : OpenTag) : Except ShowProblem Progress := do
  if openTag.tag.isAction then
    let parameters := openTag.tag.parameter.getD []
    if parameters ≠ [] then
      (Action.check parameters).mapError fun problem => .markup (.action problem)
    return p.withSpan openTag.start []
  else return p.leave openTag

/-- The text with its spans in the order in which they begin. Of those that begin together, the last
one that ends comes first. -/
def styled (p : Progress) : Styled :=
  let p := p.openTags.foldl leave p
  ⟨p.shown, p.spans.mergeSort fun s t => s.start ≤ t.start⟩

end Progress

/-- The last open tag that has a name, and the others. -/
def close? (name : List TextUnit) : List OpenTag → Option (OpenTag × List OpenTag)
  | [] => none
  | openTag :: rest =>
    if openTag.tag.name = name then some (openTag, rest)
    else (close? name rest).map fun (found, rest) => (found, openTag :: rest)

/-- What comes of one more part. -/
def step (p : Progress) : Part → Except ShowProblem Progress
  | .text units =>
    .ok { p with shown := p.shown ++ dropControls (showPictographs (unescape units)) }
  | .tag tag position =>
    match tag.closed? with
    | none => do
      let tag : Tag := { tag with name := ← normalForm tag.name }
      return { p with openTags := ⟨p.shown.length, tag⟩ :: p.openTags }
    | some [] =>
      match p.openTags with
      | [] => .error (.markup (.nothingOpen position))
      | openTag :: rest => Progress.close { p with openTags := rest } openTag
    | some name => do
      match close? (← normalForm name) p.openTags with
      | none => .error (.markup (.neverOpened tag position))
      | some (openTag, rest) => Progress.close { p with openTags := rest } openTag

/-- Units with tags in them as styled text. -/
def read (units : List TextUnit) : Except ShowProblem Styled := do
  let p ← (parts units).foldlM step ⟨[], [], []⟩
  return p.styled

end Markup

end ProtoSchema.Screen

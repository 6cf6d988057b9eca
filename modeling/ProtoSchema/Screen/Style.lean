import ProtoSchema.Text.Blank
import ProtoSchema.Text.Words

/-!
# Styles

A style is given in words: emphases, a colour, a colour behind `on`, and the target of a link. A
screen without colours shows nothing of it, but tags are matched by the normal form of their style,
in which its parts stand in a fixed order.
-/

namespace ProtoSchema.Screen

/-- The ways in which text may be set off. -/
inductive Emphasis
  | bold
  | dim
  | italic
  | underline
  | blink
  | fastBlink
  | reverse
  | conceal
  | strike
  | doubleUnderline
  | frame
  | encircle
  | overline
  deriving DecidableEq, Repr

namespace Emphasis

/-- All emphases, in the order in which a normal form lists them. -/
def all : List Emphasis :=
  [bold, dim, italic, underline, blink, fastBlink, reverse, conceal, strike, doubleUnderline, frame,
    encircle, overline]

/-- How an emphasis is named. -/
def name : Emphasis → String
  | bold => "bold"
  | dim => "dim"
  | italic => "italic"
  | underline => "underline"
  | blink => "blink"
  | fastBlink => "blink2"
  | reverse => "reverse"
  | conceal => "conceal"
  | strike => "strike"
  | doubleUnderline => "underline2"
  | frame => "frame"
  | encircle => "encircle"
  | overline => "overline"

/-- The short name of an emphasis, if it has one. -/
def short? : Emphasis → Option String
  | bold => some "b"
  | dim => some "d"
  | italic => some "i"
  | underline => some "u"
  | reverse => some "r"
  | conceal => some "c"
  | strike => some "s"
  | doubleUnderline => some "uu"
  | overline => some "o"
  | blink | fastBlink | frame | encircle => none

/-- The emphasis that a word names. -/
def ofWord? (word : List TextUnit) : Option Emphasis := do
  let word ← Text.toString? ⟨word⟩
  all.find? fun e => e.name = word ∨ e.short? = some word

end Emphasis

/-! ## Colours -/

/-- The colours that have a name. -/
def colorNames : List String :=
  ["black", "red", "green", "yellow", "blue", "magenta", "cyan", "white", "bright_black",
    "bright_red", "bright_green", "bright_yellow", "bright_blue", "bright_magenta", "bright_cyan",
    "bright_white", "grey0", "gray0", "navy_blue", "dark_blue", "blue3", "blue1", "dark_green",
    "deep_sky_blue4", "dodger_blue3", "dodger_blue2", "green4", "spring_green4", "turquoise4",
    "deep_sky_blue3", "dodger_blue1", "green3", "spring_green3", "dark_cyan", "light_sea_green",
    "deep_sky_blue2", "deep_sky_blue1", "spring_green2", "cyan3", "dark_turquoise", "turquoise2",
    "green1", "spring_green1", "medium_spring_green", "cyan2", "cyan1", "dark_red", "deep_pink4",
    "purple4", "purple3", "blue_violet", "orange4", "grey37", "gray37", "medium_purple4",
    "slate_blue3", "royal_blue1", "chartreuse4", "dark_sea_green4", "pale_turquoise4", "steel_blue",
    "steel_blue3", "cornflower_blue", "chartreuse3", "cadet_blue", "sky_blue3", "steel_blue1",
    "pale_green3", "sea_green3", "aquamarine3", "medium_turquoise", "chartreuse2", "sea_green2",
    "sea_green1", "aquamarine1", "dark_slate_gray2", "dark_magenta", "dark_violet", "purple",
    "light_pink4", "plum4", "medium_purple3", "slate_blue1", "yellow4", "wheat4", "grey53",
    "gray53", "light_slate_grey", "light_slate_gray", "medium_purple", "light_slate_blue",
    "dark_olive_green3", "dark_sea_green", "light_sky_blue3", "sky_blue2", "dark_sea_green3",
    "dark_slate_gray3", "sky_blue1", "chartreuse1", "light_green", "pale_green1",
    "dark_slate_gray1", "red3", "medium_violet_red", "magenta3", "dark_orange3", "indian_red",
    "hot_pink3", "medium_orchid3", "medium_orchid", "medium_purple2", "dark_goldenrod",
    "light_salmon3", "rosy_brown", "grey63", "gray63", "medium_purple1", "gold3", "dark_khaki",
    "navajo_white3", "grey69", "gray69", "light_steel_blue3", "light_steel_blue", "yellow3",
    "dark_sea_green2", "light_cyan3", "light_sky_blue1", "green_yellow", "dark_olive_green2",
    "dark_sea_green1", "pale_turquoise1", "deep_pink3", "magenta2", "hot_pink2", "orchid",
    "medium_orchid1", "orange3", "light_pink3", "pink3", "plum3", "violet", "light_goldenrod3",
    "tan", "misty_rose3", "thistle3", "plum2", "khaki3", "light_goldenrod2", "light_yellow3",
    "grey84", "gray84", "light_steel_blue1", "yellow2", "dark_olive_green1", "honeydew2",
    "light_cyan1", "red1", "deep_pink2", "deep_pink1", "magenta1", "orange_red1", "indian_red1",
    "hot_pink", "dark_orange", "salmon1", "light_coral", "pale_violet_red1", "orchid2", "orchid1",
    "orange1", "sandy_brown", "light_salmon1", "light_pink1", "pink1", "plum1", "gold1",
    "navajo_white1", "misty_rose1", "thistle1", "yellow1", "light_goldenrod1", "khaki1", "wheat1",
    "cornsilk1", "grey100", "gray100", "grey3", "gray3", "grey7", "gray7", "grey11", "gray11",
    "grey15", "gray15", "grey19", "gray19", "grey23", "gray23", "grey27", "gray27", "grey30",
    "gray30", "grey35", "gray35", "grey39", "gray39", "grey42", "gray42", "grey46", "gray46",
    "grey50", "gray50", "grey54", "gray54", "grey58", "gray58", "grey62", "gray62", "grey66",
    "gray66", "grey70", "gray70", "grey74", "gray74", "grey78", "gray78", "grey82", "gray82",
    "grey85", "gray85", "grey89", "gray89", "grey93", "gray93"]

/-- Why words are no style: they name none, or they give a colour a share that is no number. -/
inductive StyleFailure
  | unknown
  | emptyShare
  deriving DecidableEq, Repr

/-- The greatest number of a colour, and of a share in one. -/
def greatestShade : Nat := 255

/-- What a word holds between an opening and the parenthesis at its end. -/
def argument? (opening : String) (word : List Char) : Option (List Char) :=
  if opening.toList.isPrefixOf word ∧ word.getLast? = some ')' ∧ opening.length < word.length then
    some (word.drop opening.length).dropLast
  else none

/-- The number that digits of any script spell. -/
def share? (digits : List Char) : Option Nat :=
  if digits = [] then none
  else digits.foldlM (fun n c => (decimalDigit? c).map (10 * n + ·)) 0

/-- Whether a word is a hash sign with six hexadecimal digits. -/
def isHexColor : List Char → Bool
  | '#' :: digits => digits.length = 6 ∧ digits.all fun c => c.isDigit ∨ ('a' ≤ c ∧ c ≤ 'f')
  | _ => false

/-- Whether a word gives the number of a colour. -/
def isNumberedColor (word : List Char) : Bool :=
  match argument? "color(" word with
  | some digits =>
    digits.length ≤ 3 ∧ digits.all Char.isDigit ∧ (share? digits).any (· ≤ greatestShade)
  | none => false

/-- Checks a word that mixes a colour of three shares. -/
def checkMixedColor (word : List Char) : Except StyleFailure Unit :=
  match argument? "rgb(" word with
  | none => .error .unknown
  | some shares =>
    if shares = [] ∨ ¬ shares.all (fun c => c = ',' ∨ (decimalDigit? c).isSome) then
      .error .unknown
    else
      let shares := shares.splitOn ','
      if shares.length ≠ 3 then .error .unknown
      else if shares.contains [] then .error .emptyShare
      else if shares.all fun digits => (share? digits).any (· ≤ greatestShade) then .ok ()
      else .error .unknown

/-- Checks whether a word names a colour. -/
def checkColor (word : List TextUnit) : Except StyleFailure Unit :=
  match Text.toString? ⟨smallUnits word⟩ with
  | none => .error .unknown
  | some name =>
    if name = "default" ∨ colorNames.contains name ∨ isHexColor name.toList ∨
        isNumberedColor name.toList then .ok ()
    else checkMixedColor name.toList

/-! ## Styles -/

/-- A style. Of two settings of an emphasis the first counts. -/
structure Style where
  emphases : List (Emphasis × Bool)
  color : Option (List TextUnit)
  background : Option (List TextUnit)
  link : Option (List TextUnit)
  deriving DecidableEq, Repr

namespace Style

/-- The style that changes nothing. -/
def plain : Style := ⟨[], none, none, none⟩

/-- The style with more words. -/
def read (s : Style) : List (List TextUnit) → Except StyleFailure Style
  | [] => .ok s
  | word :: words =>
    let name := smallUnits word
    let emphasis := Emphasis.ofWord? name
    match Text.toString? ⟨name⟩, emphasis, words with
    | some "on", _, [] | some "not", _, [] | some "link", _, [] => .error .unknown
    | some "on", _, color :: words => do
      checkColor color
      read { s with background := some (smallUnits color) } words
    | some "not", _, word :: words =>
      match Emphasis.ofWord? word with
      | some e => read { s with emphases := (e, false) :: s.emphases } words
      | none => .error .unknown
    | some "link", _, target :: words => read { s with link := some target } words
    | _, some e, words => read { s with emphases := (e, true) :: s.emphases } words
    | _, none, words => do
      checkColor word
      read { s with color := some name } words

/-- The style that some units give. -/
def ofUnits (units : List TextUnit) : Except StyleFailure Style :=
  if Words.trim units = (Text.ofString "none").units then .ok plain
  else plain.read (Words.ofUnits units)

/-- The words of a style in a fixed order. -/
def words (s : Style) : List (List TextUnit) :=
  let units (t : String) : List TextUnit := (Text.ofString t).units
  let emphases := Emphasis.all.flatMap fun e =>
    match s.emphases.lookup e with
    | none => []
    | some true => [units e.name]
    | some false => [units "not", units e.name]
  emphases ++ s.color.toList ++ (s.background.map fun c => [units "on", c]).getD [] ++
    (s.link.map fun l => [units "link", l]).getD []

/-- The normal form of a style; one that changes nothing is called `none`. -/
def text (s : Style) : List TextUnit :=
  match s.words with
  | [] => (Text.ofString "none").units
  | words => [TextUnit.char ' '].intercalate words

/-- The normal form of units that may give a style: where they give none, the units in small letters
without blanks around them. -/
def normalForm (units : List TextUnit) : Except StyleFailure (List TextUnit) :=
  match ofUnits units with
  | .ok s => .ok s.text
  | .error .unknown => .ok (smallUnits (Words.trim units))
  | .error .emptyShare => .error .emptyShare

end Style

end ProtoSchema.Screen

import Patchbay.Fault
import Patchbay.Number.Reading
import Patchbay.Table
import Patchbay.Text.Blank
import Patchbay.Text.Case

/-!
# Styles of text for the console

A style is written in words: attributes such as `bold`, possibly after `not`; a colour; a colour of the
ground after `on`; the target of a link after `link`. Words may come in any order, and of two that say the
same the later one counts. The normal form of a style has its words in a fixed order.
-/

namespace Patchbay

/-- What can be said about the look of text beside its colours. -/
inductive Attribute where
  | bold
  | dim
  | italic
  | underline
  | blink
  | blink2
  | reverse
  | conceal
  | strike
  | underline2
  | frame
  | encircle
  | overline
deriving DecidableEq, Repr, Inhabited

namespace Attribute

/-- The name of an attribute. -/
def name : Attribute → String
  | .bold => "bold"
  | .dim => "dim"
  | .italic => "italic"
  | .underline => "underline"
  | .blink => "blink"
  | .blink2 => "blink2"
  | .reverse => "reverse"
  | .conceal => "conceal"
  | .strike => "strike"
  | .underline2 => "underline2"
  | .frame => "frame"
  | .encircle => "encircle"
  | .overline => "overline"

/-- All attributes, in the order of normal forms. -/
def all : List Attribute :=
  [.bold, .dim, .italic, .underline, .blink, .blink2, .reverse, .conceal, .strike, .underline2, .frame,
   .encircle, .overline]

/-- Short names. -/
def shortNames : List (String × Attribute) :=
  [("b", .bold), ("d", .dim), ("i", .italic), ("u", .underline), ("r", .reverse), ("c", .conceal),
   ("s", .strike), ("uu", .underline2), ("o", .overline)]

/-- The attribute with a name or a short name. -/
def ofName? (name : String) : Option Attribute :=
  match all.find? fun a => a.name == name with
  | some a => some a
  | none => (shortNames.find? fun n => n.1 == name).map (·.2)

end Attribute

/-! ## Colours -/

/-- Names of colours. -/
def colorNames : List String :=
  Text.wordsOf
    "default black red green yellow blue magenta cyan white bright_black bright_red bright_green bright_yellow
    bright_blue bright_magenta bright_cyan bright_white navy_blue dark_blue blue3 blue1 dark_green deep_sky_blue4
    dodger_blue3 dodger_blue2 green4 spring_green4 turquoise4 deep_sky_blue3 dodger_blue1 green3 spring_green3
    dark_cyan light_sea_green deep_sky_blue2 deep_sky_blue1 spring_green2 cyan3 dark_turquoise turquoise2 green1
    spring_green1 medium_spring_green cyan2 cyan1 dark_red deep_pink4 purple4 purple3 blue_violet orange4
    medium_purple4 slate_blue3 royal_blue1 chartreuse4 dark_sea_green4 pale_turquoise4 steel_blue steel_blue3
    cornflower_blue chartreuse3 cadet_blue sky_blue3 steel_blue1 pale_green3 sea_green3 aquamarine3 medium_turquoise
    chartreuse2 sea_green2 sea_green1 aquamarine1 dark_slate_gray2 dark_magenta dark_violet purple light_pink4 plum4
    medium_purple3 slate_blue1 yellow4 wheat4 light_slate_grey light_slate_gray medium_purple light_slate_blue
    dark_olive_green3 dark_sea_green light_sky_blue3 sky_blue2 dark_sea_green3 dark_slate_gray3 sky_blue1 chartreuse1
    light_green pale_green1 dark_slate_gray1 red3 medium_violet_red magenta3 dark_orange3 indian_red hot_pink3
    medium_orchid3 medium_orchid medium_purple2 dark_goldenrod light_salmon3 rosy_brown medium_purple1 gold3
    dark_khaki navajo_white3 light_steel_blue3 light_steel_blue yellow3 dark_sea_green2 light_cyan3 light_sky_blue1
    green_yellow dark_olive_green2 dark_sea_green1 pale_turquoise1 deep_pink3 magenta2 hot_pink2 orchid
    medium_orchid1 orange3 light_pink3 pink3 plum3 violet light_goldenrod3 tan misty_rose3 thistle3 plum2 khaki3
    light_goldenrod2 light_yellow3 light_steel_blue1 yellow2 dark_olive_green1 honeydew2 light_cyan1 red1 deep_pink2
    deep_pink1 magenta1 orange_red1 indian_red1 hot_pink dark_orange salmon1 light_coral pale_violet_red1 orchid2
    orchid1 orange1 sandy_brown light_salmon1 light_pink1 pink1 plum1 gold1 navajo_white1 misty_rose1 thistle1
    yellow1 light_goldenrod1 khaki1 wheat1 cornsilk1"
    ++ [0, 3, 7, 11, 15, 19, 23, 27, 30, 35, 37, 39, 42, 46, 50, 53, 54, 58, 62, 63, 66, 69, 70, 74, 78, 82, 84, 85,
        89, 93, 100].flatMap fun shade : Nat => ["grey" ++ toString shade, "gray" ++ toString shade]

/-- What stands between a word and a closing parenthesis at the end. -/
def inParentheses? (word cs : List Char) : Option (List Char) :=
  if cs.take word.length = word && cs.getLast? = some ')' then some (cs.drop word.length).dropLast
  else none

/-- The parts of a text between commas. -/
def betweenCommas (cs : List Char) : List (List Char) :=
  ((String.ofList cs).splitOn ",").map String.toList

/-- Whether a text in lower case is that of three shares of red, green and blue. The text of a share must
be that of a number, and none may be above 255. -/
def isShares (cs : List Char) : Except Fault Bool :=
  if cs.all fun c => Text.isDigit c || c == ',' then
    match betweenCommas cs with
    | [red, green, blue] =>
      let shares := [red, green, blue]
      if shares.any fun s => s.isEmpty || Number.digitLimit < s.length then .error .malformedColor
      else .ok (shares.all fun s => Text.decimalValue s ≤ 255)
    | _ => .ok false
  else .ok false

/-- Whether a text in lower case is that of a colour: a name, six hexadecimal digits, a number in a
palette, or shares of red, green and blue. -/
def isColor (cs : List Char) : Except Fault Bool :=
  if colorNames.contains (String.ofList cs) then .ok true
  else
    match cs with
    | '#' :: digits =>
      .ok (digits.length == 6 && digits.all fun c => ('0' ≤ c && c ≤ '9') || ('a' ≤ c && c ≤ 'f'))
    | _ =>
      match inParentheses? "color(".toList cs, inParentheses? "rgb(".toList cs with
      | some number, _ =>
        .ok (1 ≤ number.length && number.length ≤ 3 && (number.all fun c => '0' ≤ c && c ≤ '9')
          && Text.decimalValue number ≤ 255)
      | none, some shares => isShares shares
      | none, none => .ok false

/-! ## Styles -/

/-- A style. -/
structure Style where
  attributes : Table Attribute Bool
  color : Option String
  ground : Option String
  link : Option String
deriving DecidableEq, Repr

namespace Style

/-- The style that says nothing. -/
def plain : Style := ⟨.empty, none, none, none⟩

/-- The words of a style in its normal form. -/
def words (s : Style) : List String :=
  (Attribute.all.filterMap fun a => (s.attributes.get? a).map fun on => if on then a.name else "not " ++ a.name)
    ++ s.color.toList ++ (s.ground.map ("on " ++ ·)).toList ++ (s.link.map ("link " ++ ·)).toList

/-- The normal form of a style. -/
def text (s : Style) : String := if s.words.isEmpty then "none" else " ".intercalate s.words

/-- A style with what further words say; none if a word says nothing. -/
def withWords : Style → List (List Char) → Except Fault (Option Style)
  | s, [] => .ok (some s)
  | s, word :: words =>
    let lower := Text.lowered word
    if lower = "on".toList then
      match words with
      | [] => .ok none
      | ground :: words => do
        let ground := Text.lowered ground
        if ← isColor ground then withWords { s with ground := some (String.ofList ground) } words
        else return none
    else if lower = "not".toList then
      match words with
      | [] => .ok none
      | name :: words =>
        match Attribute.ofName? (String.ofList name) with
        | some a => withWords { s with attributes := s.attributes.insert a false } words
        | none => .ok none
    else if lower = "link".toList then
      match words with
      | [] => .ok none
      | target :: words => withWords { s with link := some (String.ofList target) } words
    else
      match Attribute.ofName? (String.ofList lower) with
      | some a => withWords { s with attributes := s.attributes.insert a true } words
      | none => do
        if ← isColor lower then withWords { s with color := some (String.ofList lower) } words
        else return none

/-- Reads a style; none if the text is not that of one. -/
def read (cs : List Char) : Except Fault (Option Style) :=
  if Text.trim cs = "none".toList then .ok (some plain) else withWords plain (Text.words cs)

/-- The name under which a style is opened and closed: its normal form, or the text itself in lower case
if it is not that of a style. -/
def nameOf (cs : List Char) : Except Fault String :=
  (read cs).map fun
    | some style => style.text
    | none => String.ofList (Text.lowered (Text.trim cs))

end Style

end Patchbay

/-!
The parts of a printed report have roles, and a palette says how text of each role is shown.
-/

namespace Errata.Report

inductive Role where
  | neutral
  | error
  | filename
  | problem
  | rule
  | gutter
  | excerpt
  | caret
deriving DecidableEq, Repr

abbrev Palette := Role → String → String

namespace Palette

/-- Text as it is. -/
def plain : Palette := fun _ text => text

/-- The control sequence with the given parameters. -/
def escape (parameters : String) : String := "\x1b[" ++ parameters ++ "m"

def bold (text : String) : String := escape "1" ++ text ++ escape "0"

/-- Text in the colour with the given parameters. -/
def coloured (parameters text : String) : String := escape parameters ++ text ++ escape "39"

/-- Colours and weights of a terminal. -/
def terminal : Palette
  | .neutral, text => text
  | .error, text => coloured "91" text
  | .filename, text => text
  | .problem, text => bold text
  | .rule, text => coloured "38;2;153;153;153" text
  | .gutter, text => coloured "94" text
  | .excerpt, text => text
  | .caret, text => bold (coloured "91" text)

end Palette
end Errata.Report

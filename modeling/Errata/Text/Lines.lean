import Errata.Text.Blank

/-!
The lines of notation that is laid out by indentation. Blank lines are left out, and each other line
records the blanks before it, so that the text can be put together again from its lines.
-/

namespace Errata

structure Line where
  /-- What stands between the previous line's text and this line's. -/
  gap : Text
  /-- Size of the blanks that the line begins with. -/
  indent : Nat
  /-- Position of the first character that is not blank. -/
  start : Nat
  /-- The line without the blanks around it. -/
  text : Text
deriving DecidableEq, Repr

namespace Line

/-- Position after the last character that is not blank. -/
def stop (line : Line) : Nat := line.start + line.text.size

/-- The lines among `raws`, the first of which begins at `offset` with `gap` before it. -/
def ofRaw (offset : Nat) (gap : Text) : List Text → List Line
  | [] => []
  | raw :: raws =>
    let body := raw.trimStart
    let text := body.trimEnd
    let lead : Text := raw.take (raw.length - body.length)
    let next := offset + raw.size + 1
    if text.isEmpty then ofRaw next (gap ++ raw ++ ['\n']) raws
    else
      { gap := gap ++ lead, indent := lead.size, start := offset + lead.size, text } ::
        ofRaw next (body.drop text.length ++ ['\n']) raws

end Line

/-- The lines of a text that are not blank. -/
def Text.lines (t : Text) : List Line := Line.ofRaw 0 [] (t.pieces '\n')

end Errata

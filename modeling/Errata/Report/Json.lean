import Errata.Report.Basic

/-!
Reports as an array of objects in JSON, one member a line.
-/

namespace Errata.Report

/-- A character inside a string. -/
def jsonChar (c : Char) : List Char :=
  match c with
  | '"' => ['\\', '"']
  | '\\' => ['\\', '\\']
  | '\n' => ['\\', 'n']
  | '\r' => ['\\', 'r']
  | '\t' => ['\\', 't']
  | '\x08' => ['\\', 'b']
  | '\x0c' => ['\\', 'f']
  | _ =>
    if c.toNat < 0x20 then
      ['\\', 'u', '0', '0', Nat.digitChar (c.toNat / 16), Nat.digitChar (c.toNat % 16)]
    else [c]

def jsonString (t : Text) : String := String.ofList ('"' :: t.flatMap jsonChar ++ ['"'])

/-- The members of a report, in the order in which they are written. -/
def members (r : Report) : List (String × String) := [
  ("rule", jsonString r.rule.code.toList),
  ("message", jsonString r.message.toList),
  ("file", jsonString r.file),
  ("line", r.line.repr),
  ("column", r.column.repr)]

def jsonObject (r : Report) : String :=
  "  \x7b\n" ++
    ",\n".intercalate (r.members.map fun (key, value) =>
      "    " ++ jsonString key.toList ++ ": " ++ value) ++
    "\n  \x7d"

/-- An array of reports. -/
def jsonArray (reports : List Report) : String :=
  if reports.isEmpty then "[]"
  else "[\n" ++ ",\n".intercalate (reports.map jsonObject) ++ "\n]"

end Errata.Report

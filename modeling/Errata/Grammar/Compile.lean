import Errata.Grammar.Reader

/-!
Several texts of grammar are read together. The productions are then looked at as a whole: a name is
defined once, and every parameter of a production is used in it.
-/

namespace Errata.Grammar

mutual

/-- Whether an argument `?name` stands in the symbol. -/
def Symbol.passes (name : Text) : Symbol → Bool
  | .nonterminal _ _ (some arguments) =>
    arguments.any fun a => a.operator = .question && a.name = name
  | .butNot _ left right => left.passes name || right.passes name
  | .oneOf _ alternatives => Symbol.anyPasses name alternatives
  | _ => false

def Symbol.anyPasses (name : Text) : List Symbol → Bool
  | [] => false
  | s :: ss => s.passes name || Symbol.anyPasses name ss

end

/-- Whether a parameter is a condition of the guard or is passed on by a symbol. -/
def RightHandSide.uses (name : Text) (side : RightHandSide) : Bool :=
  side.guard.any (·.conditions.any (·.name = name)) || Symbol.anyPasses name side.symbols

/-- The productions whose name occurs before them; `seen` are the names of earlier productions. -/
def duplicates (seen : List Text) : List Production → List Diagnostic
  | [] => []
  | p :: ps =>
    let others := duplicates (p.name :: seen) ps
    if seen.contains p.name then
      { source := p.source, offset := p.offset, problem := .duplicateProduction p.name } :: others
    else others

/-- The parameters that no right-hand side of their production uses. -/
def unusedParameters (p : Production) : List Diagnostic :=
  (p.parameters.filter fun parameter => !p.rightHandSides.any (·.uses parameter.name)).map
    fun parameter =>
      { source := p.source
        offset := parameter.offset
        problem := .unusedParameter p.name parameter.name }

/-- Reads texts of grammar, with or without the checks on the whole. -/
def compile (sources : List Text) (checks : Bool) : Compilation :=
  let read := sources.zipIdx.map fun (text, i) => readSource i text
  let productions := read.flatMap Compilation.productions
  let diagnostics := read.flatMap Compilation.diagnostics
  if checks then
    { productions
      diagnostics :=
        diagnostics ++ duplicates [] productions ++ productions.flatMap unusedParameters }
  else { productions, diagnostics }

end Errata.Grammar

import VectorFormula.Emission
import VectorFormula.Text.Blank
/-!
Expressions: source texts together with their programs.
-/
namespace VectorFormula

structure Expression where
  text : String
  program : Program

namespace Expression

def blank : Program := [.push (.scalar 0.0)]

/-- The program of a source text. A blank one has the value zero. -/
def compile (registry : Registry) (source : String) : Except ParseError Program :=
  if Text.isAllBlank source.toList then .ok blank
  else Emission.program registry (Tokens.ofText source.toList)

def parseWith (registry : Registry) (source : String) : Except ParseError Expression :=
  (compile registry source).map (⟨source, ·⟩)

def parse (source : String) : Except ParseError Expression :=
  parseWith .builtin source

def nothing : Expression := ⟨"", blank⟩

/-- Whether an expression came out of a source, with the functions of some registry, or is that of
the empty text. -/
inductive Compiled : Expression → Prop
  | parsed {registry : Registry} {source : String} {expression : Expression} :
    parseWith registry source = .ok expression → Compiled expression
  | nothing : Compiled nothing

protected def beq (a b : Expression) : Bool :=
  a.text == b.text && a.program == b.program

instance : BEq Expression := ⟨Expression.beq⟩

end Expression

end VectorFormula

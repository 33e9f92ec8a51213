import VectorFormula.CommandLine.Arguments
import VectorFormula.Workspace
/-!
The command line program: compiles a formula, binds the given names, and prints the instructions,
the missing names or the value that is asked for.
-/
namespace VectorFormula.CommandLine

structure Outcome where
  exit : Nat
  output : String
  errors : String

def refused (error : UsageError) : Outcome := ⟨2, "", error.message ++ "\n"⟩

def failed (output message : String) : Outcome := ⟨1, output, message ++ "\n"⟩

inductive FileFault where
  | missing
  | denied
  | notDirectory
  | directory
  | notText
  | other (reason : String)
  deriving DecidableEq, Repr

def FileFault.reason : FileFault → String
  | missing => "No such file or directory (os error 2)"
  | denied => "Permission denied (os error 13)"
  | notDirectory => "Not a directory (os error 20)"
  | directory => "Is a directory (os error 21)"
  | notText => "stream did not contain valid UTF-8"
  | other reason => reason

def unreadable (path : String) (fault : FileFault) : String :=
  s!"Failed to read the input file '{path}': {fault.reason}"

/-- What a name is bound to: a number if the text is one, and a formula otherwise. -/
def draft (text : String) : Draft :=
  match Decimal.read? text.toList with
  | some x => .number x
  | none => .source text

/-- The instructions of a program, numbered from zero in four columns. -/
def listing (program : Program) : String :=
  String.join (program.zipIdx.map fun (instruction, i) =>
    let number := toString i
    let margin := String.ofList (List.replicate (4 - number.length) ' ')
    s!"{margin}{number}  {instruction.text}\n")

def Arguments.options (arguments : Arguments) : Options where
  strict := arguments.strict
  textFallback := if arguments.substituteZero then .zero else .error
  maxDepth := arguments.maxDepth.getD ({} : Options).maxDepth

def run (arguments : Arguments) (source : String) : Outcome :=
  let text := String.ofList (Text.trim source.toList)
  match Expression.parse text with
  | .error error => failed "" error.message
  | .ok expression =>
    let (formula, workspace) := ({} : Workspace).make expression
    match workspace.bindAll (arguments.bindings.map fun (name, value) => (name, draft value)) with
    | .error error => failed "" error.message
    | .ok (entries, _) =>
      let layers := [NameTable.ofList entries]
      let output := if arguments.instructions then listing formula.program else ""
      if arguments.unknowns then
        ⟨0, output ++ String.join ((formula.unknowns layers).map (· ++ "\n")), ""⟩
      else
        match (formula.evaluate layers arguments.options).result with
        | .ok value => ⟨0, output ++ value.text ++ "\n", ""⟩
        | .error error => failed output error.message

def runWith (readFile : String → Except FileFault String) (arguments : List String) : Outcome :=
  match Arguments.ofList arguments with
  | .error error => refused error
  | .ok arguments =>
    let contents := arguments.contents.getD ""
    if arguments.file then
      match readFile contents with
      | .ok source => run arguments source
      | .error fault => failed "" (unreadable contents fault)
    else run arguments contents

end VectorFormula.CommandLine

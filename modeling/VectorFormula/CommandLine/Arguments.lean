import VectorFormula.Decimal.Reading
import VectorFormula.Text.Blank
/-!
Command line arguments. Short options may be run together, and a value may be attached to its
option. Two hyphens alone end the options.
-/
namespace VectorFormula.CommandLine

structure Arguments where
  bindings : List (String × String) := []
  strict : Bool := false
  substituteZero : Bool := false
  maxDepth : Option Nat := none
  unknowns : Bool := false
  instructions : Bool := false
  file : Bool := false
  verbosity : Nat := 0
  contents : Option String := none

inductive UsageError where
  | unknownOption (option : String)
  | repeatedOption (option : String)
  | missingValue (option : String)
  | unwantedValue (option : String)
  | invalidValue (option value : String)
  | extraArgument (argument : String)
  | missingContents
  deriving DecidableEq, Repr

def UsageError.message : UsageError → String
  | unknownOption option => s!"error: unexpected argument '{option}' found"
  | repeatedOption option => s!"error: the argument '{option}' cannot be used multiple times"
  | missingValue option => s!"error: a value is required for '{option}' but none was supplied"
  | unwantedValue option => s!"error: unexpected value for '{option}' found"
  | invalidValue option value => s!"error: invalid value '{value}' for '{option}'"
  | extraArgument argument => s!"error: unexpected argument '{argument}' found"
  | missingContents => "error: the formula is missing"

inductive Flag where
  | set | strict | substituteZero | maxDepth | unknowns | instructions | file | verbose
  deriving DecidableEq, Repr

namespace Flag

def name : Flag → String
  | set => "set"
  | strict => "strict"
  | substituteZero => "substitute-zero"
  | maxDepth => "max-depth"
  | unknowns => "unknowns"
  | instructions => "instructions"
  | file => "file"
  | verbose => "verbose"

def all : List Flag :=
  [set, strict, substituteZero, maxDepth, unknowns, instructions, file, verbose]

def ofName? (name : String) : Option Flag :=
  all.find? (·.name = name)

def ofLetter? : Char → Option Flag
  | 's' => some set
  | 'u' => some unknowns
  | 'i' => some instructions
  | 'f' => some file
  | 'v' => some verbose
  | _ => none

def takesValue : Flag → Bool
  | set | maxDepth => true
  | _ => false

end Flag

/-- The name and the value of a binding, divided at the first equals sign. Blanks around them do not
count, and the name may not be empty. -/
def binding? (text : String) : Option (String × String) :=
  let name := text.toList.takeWhile (· ≠ '=')
  match text.toList.dropWhile (· ≠ '=') with
  | [] => none
  | _ :: value =>
    let name := Text.trim name
    if name = [] then none else some (String.ofList name, String.ofList (Text.trim value))

/-- A depth in decimal digits, perhaps with a plus sign, that fits into 64 bits. -/
def depth? (text : String) : Option Nat :=
  let digits := match text.toList with
    | '+' :: rest => rest
    | digits => digits
  if digits ≠ [] ∧ digits.all Char.isDigit then
    let depth := Decimal.digitsValue digits
    if depth < UInt64.size then some depth else none
  else none

namespace Arguments

/-- Takes up an option that has no value. All but the wish for detail may be given once. -/
def raise (arguments : Arguments) (flag : Flag) : Except UsageError Arguments :=
  let once (given : Bool) (raised : Arguments) :=
    if given then .error (.repeatedOption flag.name) else .ok raised
  match flag with
  | .strict => once arguments.strict { arguments with strict := true }
  | .substituteZero => once arguments.substituteZero { arguments with substituteZero := true }
  | .unknowns => once arguments.unknowns { arguments with unknowns := true }
  | .instructions => once arguments.instructions { arguments with instructions := true }
  | .file => once arguments.file { arguments with file := true }
  | .verbose => .ok { arguments with verbosity := arguments.verbosity + 1 }
  | .set | .maxDepth => .error (.missingValue flag.name)

def assign (arguments : Arguments) (flag : Flag) (value : String) : Except UsageError Arguments :=
  match flag with
  | .set =>
    match binding? value with
    | some binding => .ok { arguments with bindings := arguments.bindings ++ [binding] }
    | none => .error (.invalidValue flag.name value)
  | .maxDepth =>
    match depth? value with
    | some depth =>
      if arguments.maxDepth.isSome then .error (.repeatedOption flag.name)
      else .ok { arguments with maxDepth := some depth }
    | none => .error (.invalidValue flag.name value)
  | _ => .error (.unwantedValue flag.name)

def place (arguments : Arguments) (argument : String) : Except UsageError Arguments :=
  match arguments.contents with
  | none => .ok { arguments with contents := some argument }
  | some _ => .error (.extraArgument argument)

/-- What a short option asks for after it was found among its letters: nothing, or the next
argument as its value. -/
abbrev Pending := Option Flag

/-- Takes up short options that are run together. The rest of the letters after an option with a
value is that value. -/
def letters (arguments : Arguments) : List Char → Except UsageError (Arguments × Pending)
  | [] => .ok (arguments, none)
  | letter :: rest =>
    match Flag.ofLetter? letter with
    | none => .error (.unknownOption (String.ofList ['-', letter]))
    | some flag =>
      if flag.takesValue then
        match rest with
        | [] => .ok (arguments, some flag)
        | '=' :: value => (arguments.assign flag (String.ofList value)).map (·, none)
        | value => (arguments.assign flag (String.ofList value)).map (·, none)
      else
        match arguments.raise flag with
        | .ok arguments => letters arguments rest
        | .error error => .error error

def long (arguments : Arguments) (text : List Char) : Except UsageError (Arguments × Pending) :=
  let name := String.ofList (text.takeWhile (· ≠ '='))
  match Flag.ofName? name, text.dropWhile (· ≠ '=') with
  | none, _ => .error (.unknownOption ("--" ++ name))
  | some flag, [] =>
    if flag.takesValue then .ok (arguments, some flag) else (arguments.raise flag).map (·, none)
  | some flag, _ :: value => (arguments.assign flag (String.ofList value)).map (·, none)

def collect (arguments : Arguments) : Pending → List String → Except UsageError Arguments
  | none, [] => .ok arguments
  | some flag, [] => .error (.missingValue flag.name)
  | some flag, argument :: rest =>
    match argument.toList with
    | '-' :: _ :: _ => .error (.missingValue flag.name)
    | _ => do collect (← arguments.assign flag argument) none rest
  | none, argument :: rest =>
    match argument.toList with
    | ['-', '-'] => rest.foldlM place arguments
    | '-' :: '-' :: text => do
      let (arguments, pending) ← arguments.long text
      collect arguments pending rest
    | '-' :: letter :: more => do
      let (arguments, pending) ← arguments.letters (letter :: more)
      collect arguments pending rest
    | _ => do collect (← arguments.place argument) none rest

def ofList (arguments : List String) : Except UsageError Arguments := do
  let arguments ← ({} : Arguments).collect none arguments
  if arguments.contents.isNone then throw .missingContents
  return arguments

end Arguments

end VectorFormula.CommandLine

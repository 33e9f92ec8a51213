import VectorFormula.NameTable
import VectorFormula.Function.Catalog
import VectorFormula.Text.Lowercase
/-!
Registries: functions under names that are read without regard to case. A name may stand for several
functions of different operand counts; one that takes any number is used where no count fits.
-/
namespace VectorFormula

/-- Functions under lowercase names, at most one of each arity under a name. -/
structure Registry where
  functions : NameTable (List Function)

namespace Registry

def empty : Registry := ⟨⟨[]⟩⟩

def register (registry : Registry) (name : String) (function : Function) : Registry :=
  let key := Text.lowercase name
  let others := ((registry.functions.get? key).getD []).filter (·.arity ≠ function.arity)
  ⟨registry.functions.insert key (others ++ [function])⟩

def builtin : Registry :=
  Function.catalog.foldl (fun registry entry => registry.register entry.1 entry.2) empty

def contains (registry : Registry) (name : String) : Bool :=
  registry.functions.contains (Text.lowercase name)

def names (registry : Registry) : List String :=
  registry.functions.names

def fixedArities (functions : List Function) : List Nat :=
  (functions.filterMap fun function =>
    match function.arity with
    | .exact count => some count
    | .variadic => none).mergeSort

/-- Chooses among the functions of a name: the one of the given operand count, or else the one that
takes any number. -/
def select (functions : List Function) (arity : Nat) : Option Function :=
  functions.find? (·.arity = .exact arity) <|> functions.find? (·.arity = .variadic)

def lookup (registry : Registry) (name : String) (arity : Nat) : Except LookupError Function :=
  match registry.functions.get? (Text.lowercase name) with
  | none => .error (.unknownFunction name arity)
  | some functions =>
    match select functions arity with
    | some function => .ok function
    | none => .error (.arityMismatch name arity (fixedArities functions))

def lookupOperator (registry : Registry) (operator : Operator) (arity : Nat) :
    Except LookupError Function :=
  match operator.functionName? with
  | some name => registry.lookup name arity
  | none => .error (.unknownFunction operator.symbol arity)

end Registry

end VectorFormula

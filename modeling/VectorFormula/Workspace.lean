import VectorFormula.Evaluation
/-!
Workspaces: contexts, formulas and registries under names. A name that is compiled again stands
for the new formula, while contexts that bound the old one keep it. An operation that fails gives
no new workspace.
-/
namespace VectorFormula

inductive Draft where
  | number (value : Float)
  | truth (value : Bool)
  | value (value : Value)
  | text (text : String)
  | item (value : Value) (members : Option (List (String × Draft)))
  | source (source : String)
  | shared (name : String)

/-- Named contexts, formulas and registries; `fresh` is the identity of the next formula. -/
structure Workspace where
  contexts : NameTable Context := {}
  formulas : NameTable Formula := {}
  registries : NameTable Registry := {}
  fresh : Nat := 0

namespace Workspace

def make (workspace : Workspace) (expression : Expression) : Formula × Workspace :=
  (⟨workspace.fresh, expression⟩, { workspace with fresh := workspace.fresh + 1 })

def context (workspace : Workspace) (name : String) : Context :=
  (workspace.contexts.get? name).getD {}

def registry (workspace : Workspace) (name : Option String) : Registry :=
  (name.bind workspace.registries.get?).getD .builtin

/-- The formula of a name; a name that has none gets one without text. -/
def formula (workspace : Workspace) (name : String) : Formula × Workspace :=
  match workspace.formulas.get? name with
  | some formula => (formula, workspace)
  | none => workspace.make .nothing

mutual

def bind (workspace : Workspace) : Draft → Except ParseError (Binding × Workspace)
  | .number x => .ok (.number x, workspace)
  | .truth b => .ok (.truth b, workspace)
  | .value v => .ok (.value v, workspace)
  | .text s => .ok (.text s, workspace)
  | .item v none => .ok (.item v none, workspace)
  | .item v (some drafts) =>
    match bindAll workspace drafts with
    | .ok (entries, workspace) => .ok (.item v (some (.ofList entries)), workspace)
    | .error error => .error error
  | .source source =>
    match Expression.parse source with
    | .ok expression =>
      let (formula, workspace) := workspace.make expression
      .ok (.formula formula, workspace)
    | .error error => .error error
  | .shared name =>
    let (formula, workspace) := workspace.formula name
    .ok (.formula formula, workspace)

def bindAll (workspace : Workspace) :
    List (String × Draft) → Except ParseError (List (String × Binding) × Workspace)
  | [] => .ok ([], workspace)
  | (name, draft) :: rest =>
    match bind workspace draft with
    | .error error => .error error
    | .ok (binding, workspace) =>
      match bindAll workspace rest with
      | .error error => .error error
      | .ok (entries, workspace) => .ok ((name, binding) :: entries, workspace)

end

def setContext (workspace : Workspace) (name : String) (context : Context) : Workspace :=
  { workspace with contexts := workspace.contexts.insert name context }

def insert (workspace : Workspace) (context name : String) (draft : Draft) :
    Except ParseError (Option Binding × Workspace) := do
  let (binding, workspace) ← workspace.bind draft
  let old := workspace.context context
  return (old.get? name, workspace.setContext context (old.insert name binding))

def remove (workspace : Workspace) (context name : String) : Option Binding × Workspace :=
  let old := workspace.context context
  (old.get? name, workspace.setContext context (old.erase name))

def extend (workspace : Workspace) (context : String) (drafts : List (String × Draft)) :
    Except ParseError Workspace := do
  let (entries, workspace) ← workspace.bindAll drafts
  return workspace.setContext context ((workspace.context context).insertAll entries)

def collect (workspace : Workspace) (context : String) (drafts : List (String × Draft)) :
    Except ParseError Workspace := do
  let (entries, workspace) ← workspace.bindAll drafts
  return workspace.setContext context (.ofList entries)

def copy (workspace : Workspace) (context source : String) : Workspace :=
  workspace.setContext context (workspace.context source)

def define (workspace : Workspace) (name : String) (expression : Expression) : Workspace :=
  let (formula, workspace) := workspace.make expression
  { workspace with formulas := workspace.formulas.insert name formula }

def compile (workspace : Workspace) (registry : Option String) (name source : String) :
    Except ParseError (Expression × Workspace) := do
  let expression ← Expression.parseWith (workspace.registry registry) source
  return (expression, workspace.define name expression)

def layers (workspace : Workspace) :
    List (List (String × Draft)) → Except ParseError (List Context × Workspace)
  | [] => .ok ([], workspace)
  | drafts :: rest => do
    let (entries, workspace) ← workspace.bindAll drafts
    let (contexts, workspace) ← workspace.layers rest
    return (.ofList entries :: contexts, workspace)

def setRegistry (workspace : Workspace) (name : String) (registry : Registry) : Workspace :=
  { workspace with registries := workspace.registries.insert name registry }

end Workspace

end VectorFormula

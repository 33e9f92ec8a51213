import VectorFormula.NameTable
import VectorFormula.Expression
import VectorFormula.Text.Quoted
/-!
Contexts: what names are bound to. Formulas have an identity, so that a formula that comes back to
itself can be told from an equal one.
-/
namespace VectorFormula

/-- An expression that names may be bound to. Formulas with one `id` are one and the same. -/
structure Formula where
  id : Nat
  expression : Expression

inductive Binding where
  | number (value : Float)
  | truth (value : Bool)
  | value (value : Value)
  | text (text : String)
  | item (value : Value) (members : Option (NameTable Binding))
  | formula (formula : Formula)

abbrev Context := NameTable Binding

namespace Formula

def text (formula : Formula) : String := formula.expression.text

def program (formula : Formula) : Program := formula.expression.program

end Formula

namespace Binding

def inspection : Binding → String
  | .number x => s!"Number({Decimal.inspection x})"
  | .truth b => s!"Bool({b})"
  | .value v => s!"Value({v.inspection})"
  | .text s => s!"Text({Text.quoted s})"
  | .item v _ => s!"Item({v.inspection})"
  | .formula f => s!"Expression({Text.quoted f.text})"

/-- Goes down from a binding by the names of members. Only items have members. -/
def descend : Binding → List String → Option Binding
  | binding, [] => some binding
  | .item _ (some members), name :: rest => (members.get? name).bind (descend · rest)
  | _, _ :: _ => none

mutual

def formulas : Binding → List Formula
  | .formula f => [f]
  | .item _ (some ⟨entries⟩) => formulasOf entries
  | _ => []

def formulasOf : List (String × Binding) → List Formula
  | [] => []
  | (_, binding) :: rest => binding.formulas ++ formulasOf rest

end

theorem mem_formulasOf {entries : List (String × Binding)} {name : String} {binding : Binding}
    {f : Formula} (he : (name, binding) ∈ entries) (hf : f ∈ binding.formulas) :
    f ∈ formulasOf entries := by
  induction entries with
  | nil => cases he
  | cons head rest ih =>
    unfold formulasOf
    rcases List.mem_cons.mp he with rfl | h
    · exact List.mem_append_left _ hf
    · exact List.mem_append_right _ (ih h)

theorem mem_formulas_of_descend {start reached : Binding} {path : List String} {f : Formula}
    (hd : start.descend path = some reached) (hf : f ∈ reached.formulas) :
    f ∈ start.formulas := by
  induction path generalizing start with
  | nil => unfold descend at hd; cases hd; exact hf
  | cons name rest ih =>
    unfold descend at hd
    split at hd
    · cases hd; exact hf
    · rename_i members next tail heq
      cases heq
      obtain ⟨inner, hm, hi⟩ := Option.bind_eq_some_iff.mp hd
      unfold formulas
      exact mem_formulasOf (NameTable.mem_entries_of_get? hm) (ih hi)
    · cases hd

end Binding

end VectorFormula

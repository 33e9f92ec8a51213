import Mathlib.Logic.Function.Iterate
/-!
Steps one after another. A machine leads from one state to another in a number of steps, where all
states that are left on the way have a property.
-/
namespace VectorFormula

variable {State : Type} {step : State → State} {passing weaker : State → Prop} {first last next : State}
  {count more : Nat}

/-- Whether so many steps lead from one state to another, and all states before the last one have a
property. -/
structure Leads (step : State → State) (passing : State → Prop) (count : Nat)
    (first last : State) : Prop where
  reaches : step^[count] first = last
  passes : ∀ n < count, passing (step^[n] first)

theorem Leads.refl (state : State) : Leads step passing 0 state state :=
  ⟨rfl, fun _ hn => absurd hn (Nat.not_lt_zero _)⟩

theorem Leads.single (hs : step first = last) (h : passing first) :
    Leads step passing 1 first last where
  reaches := hs
  passes n hn := by
    obtain rfl : n = 0 := Nat.lt_one_iff.mp hn
    exact h

theorem Leads.trans (h : Leads step passing count first next)
    (hm : Leads step passing more next last) :
    Leads step passing (count + more) first last where
  reaches := by rw [Nat.add_comm, Function.iterate_add_apply, h.reaches, hm.reaches]
  passes n hn := by
    rcases Nat.lt_or_ge n count with hlt | hge
    · exact h.passes n hlt
    · obtain ⟨k, rfl⟩ := Nat.exists_eq_add_of_le hge
      rw [Nat.add_comm, Function.iterate_add_apply, h.reaches]
      exact hm.passes k (by omega)

theorem Leads.mono (h : Leads step passing count first last)
    (hp : ∀ state, passing state → weaker state) : Leads step weaker count first last :=
  ⟨h.reaches, fun n hn => hp _ (h.passes n hn)⟩

end VectorFormula

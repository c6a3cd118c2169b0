import Mathlib.Logic.Function.Basic
import Mathlib.Logic.Relation

/-! A value that is stored and handed on: what is still on its way to a place stands oldest
first, and a place shows what came to it last, or what it has read where the value is stored. -/
namespace EpskcCommissioner

structure Relay (Place Value : Type) where
  stored : Value
  way : Place → List Value
  shown : Place → Option Value

namespace Relay

variable {Place Value : Type} [DecidableEq Place]

/- Only a place that shows nothing may let a value go by. -/
inductive Step : Relay Place Value → Relay Place Value → Prop where
  | store (r v) : Step r ⟨v,fun k => r.way k ++ [v],r.shown⟩
  | read (r k) : Step r {r with shown := Function.update r.shown k (some r.stored)}
  | arrive {r k v rest} (next : r.way k = v :: rest) :
      Step r ⟨r.stored,Function.update r.way k rest,Function.update r.shown k (some v)⟩
  | pass {r k v rest} (next : r.way k = v :: rest) (hidden : r.shown k = none) :
      Step r {r with way := Function.update r.way k rest}
  | reset (r v) : Step r ⟨v,fun _ => [],fun _ => none⟩

abbrev Steps : Relay Place Value → Relay Place Value → Prop := Relation.ReflTransGen Step

/- The newest value on the way is the stored one, and a place with none on its way shows it. -/
def Fresh (r : Relay Place Value) : Prop :=
  ∀ k, (∀ v ∈ (r.way k).getLast?, v = r.stored) ∧ (r.way k = [] → ∀ v ∈ r.shown k, v = r.stored)

variable {r t : Relay Place Value} {k : Place} {v : Value} {rest : List Value}

theorem lastPassed {stored : Value} (last : ∀ w ∈ (v :: rest).getLast?, w = stored) :
    ∀ w ∈ rest.getLast?, w = stored := by
  intro w mem
  refine last w ?_
  cases rest with
  | nil => cases mem
  | cons next rest =>
    rw [List.getLast?_cons_cons]
    exact mem

theorem freshStep (fresh : Fresh r) (step : Step r t) : Fresh t := by
  cases step with
  | store v =>
    intro k
    constructor
    · intro last mem
      dsimp only at mem
      rw [List.getLast?_concat] at mem
      exact (Option.some.inj mem).symm
    · intro none
      simp at none
  | read k =>
    intro other
    refine ⟨(fresh other).1,fun none v mem => ?_⟩
    by_cases same : other = k
    · subst same
      dsimp only at mem
      rw [Function.update_self] at mem
      exact (Option.some.inj mem).symm
    · dsimp only at mem
      rw [Function.update_of_ne same] at mem
      exact (fresh other).2 none v mem
  | @arrive k v rest next =>
    intro other
    by_cases same : other = k
    · subst same
      have last := (fresh other).1
      rw [next] at last
      dsimp only
      rw [Function.update_self, Function.update_self]
      refine ⟨lastPassed last,?_⟩
      rintro rfl w mem
      exact last w mem
    · dsimp only
      rw [Function.update_of_ne same, Function.update_of_ne same]
      exact fresh other
  | @pass k v rest next hidden =>
    intro other
    by_cases same : other = k
    · subst same
      have last := (fresh other).1
      rw [next] at last
      dsimp only
      rw [Function.update_self, hidden]
      exact ⟨lastPassed last,fun _ => nofun⟩
    · dsimp only
      rw [Function.update_of_ne same]
      exact fresh other
  | reset v => exact fun _ => ⟨nofun,fun _ => nofun⟩

theorem freshSteps (fresh : Fresh r) (steps : Steps r t) : Fresh t := by
  induction steps with
  | refl => exact fresh
  | tail _ step ih => exact freshStep ih step

end Relay

end EpskcCommissioner

import Mathlib.Logic.Function.Basic

/-! A claim that one party at a time can hold, with a flag that tells whether it is held.
A party takes a free claim, passes it on, or gives it up. -/
namespace EpskcCommissioner

structure Sole {Party : Type} (holds : Party → Bool) (flag : Bool) : Prop where
  alone : ∀ p q, holds p = true → holds q = true → p = q
  told : flag = true ↔ ∃ p, holds p = true

namespace Sole

variable {Party : Type} {holds : Party → Bool} {flag b : Bool} {p q : Party}

theorem none (free : ∀ p, holds p = false) : Sole holds false :=
  ⟨fun p _ held => absurd held (by rw [free p]; exact Bool.false_ne_true),
    fun wrong => absurd wrong Bool.false_ne_true,
    fun ⟨p,held⟩ => by rw [free p] at held; exact held⟩

theorem free (sole : Sole holds false) (p : Party) : holds p = false := by
  by_contra held
  exact absurd (sole.told.mpr ⟨p,eq_true_of_ne_false held⟩) Bool.false_ne_true

theorem taken (sole : Sole holds flag) (held : holds p = true) : flag = true := sole.told.mpr ⟨p,held⟩

variable [DecidableEq Party]

theorem same (sole : Sole holds flag) (kept : holds p = b) : Sole (Function.update holds p b) flag := by
  rw [← kept, Function.update_eq_self]
  exact sole

theorem only (others : ∀ q, q ≠ p → holds q = false) : Sole (Function.update holds p true) true := by
  have mine : ∀ q, Function.update holds p true q = true → q = p := by
    intro q held
    by_contra other
    rw [Function.update_of_ne other, others q other] at held
    cases held
  exact ⟨fun a b first second => (mine a first).trans (mine b second).symm,
    fun _ => ⟨p,Function.update_self ..⟩,fun _ => rfl⟩

theorem take (sole : Sole holds false) (p : Party) : Sole (Function.update holds p true) true :=
  only fun q _ => sole.free q

theorem give (sole : Sole holds flag) (held : holds p = true) : Sole (Function.update holds p false) false := by
  refine none fun q => ?_
  by_cases same : q = p
  · rw [same, Function.update_self]
  · rw [Function.update_of_ne same]
    by_contra also
    exact same (sole.alone q p (eq_true_of_ne_false also) held)

theorem pass (sole : Sole holds flag) (held : holds p = true) (q : Party) :
    Sole (Function.update (Function.update holds p false) q true) true :=
  (sole.give held).take q

end Sole

end EpskcCommissioner

import Mathlib.Algebra.GroupWithZero.Nat
import Mathlib.Data.Fin.Basic

/-! A ring of cells that are written in turn, beside the list of all that was ever written:
the cells have the end of the list. -/
namespace EpskcCommissioner.LastCells

variable {α : Type*} {c : Nat} [NeZero c] {cells : Fin c → α} {xs : List α}

/- The j-th entry is in cell j modulo the size of the ring, until c others have come. -/
def HoldsLast (cells : Fin c → α) (xs : List α) : Prop :=
  ∀ j x, xs[j]? = some x → xs.length ≤ j + c → cells (Fin.ofNat c j) = x

theorem holdsLastNil (cells : Fin c → α) : HoldsLast cells [] :=
  fun _ _ found => absurd found (Option.some_ne_none _).symm

theorem cellApart {i j : Nat} (less : i < j) (near : j < i + c) : Fin.ofNat c i ≠ Fin.ofNat c j := by
  intro same
  have values : i % c = j % c := congrArg Fin.val same
  have behind := Nat.sub_mod_eq_zero_of_mod_eq values.symm
  rw [Nat.mod_eq_of_lt (show j - i < c by omega)] at behind
  omega

theorem holdsLastStore (holds : HoldsLast cells xs) (x : α) :
    HoldsLast (fun i => if i = Fin.ofNat c xs.length then x else cells i) (xs ++ [x]) := by
  intro j y found recent
  rw [List.length_append, List.length_singleton] at recent
  dsimp only
  rcases Nat.lt_or_ge j xs.length with old | new
  · rw [List.getElem?_append_left old] at found
    rw [if_neg (cellApart old (by omega))]
    exact holds j y found (by omega)
  · obtain ⟨inside,_⟩ := List.getElem?_eq_some_iff.mp found
    rw [List.length_append, List.length_singleton] at inside
    have last : j = xs.length := by omega
    subst last
    rw [List.getElem?_append_right (Nat.le_refl _), Nat.sub_self] at found
    rw [if_pos rfl]
    exact Option.some.inj found

theorem holdsLastRead (holds : HoldsLast cells xs) :
    (List.range (min c xs.length)).map (fun i => cells (Fin.ofNat c (xs.length - min c xs.length + i))) =
      xs.drop (xs.length - c) := by
  apply List.ext_getElem
  · rw [List.length_map, List.length_range, List.length_drop]
    omega
  · intro i inside _
    rw [List.length_map, List.length_range] at inside
    have place : xs.length - c + i = xs.length - min c xs.length + i := by omega
    have bound : xs.length - min c xs.length + i < xs.length := by omega
    rw [List.getElem_map, List.getElem_range, List.getElem_drop]
    refine holds _ _ ?_ (by omega)
    rw [List.getElem?_eq_getElem bound]
    exact congrArg some (getElem_congr_idx place.symm)

end EpskcCommissioner.LastCells

import Mathlib.Algebra.BigOperators.Group.List.Basic
import Mathlib.Algebra.GroupWithZero.Nat
import Mathlib.Algebra.Order.Group.Nat

/-! The longest front of a list whose sizes together have room, and what becomes of it when
the list comes in pieces and each piece is fitted into the room that those before it left. -/
namespace EpskcCommissioner.Fitting

variable {α : Type*} (size : α → Nat)

def total (xs : List α) : Nat := (xs.map size).sum

def fitting : (room : Nat) → List α → List α
  | _, [] => []
  | room, x :: xs => if size x ≤ room then x :: fitting (room - size x) xs else []

/- Piece by piece; a piece does not know whether one before it was cut. -/
def pieced : (room : Nat) → List (List α) → List α
  | _, [] => []
  | room, piece :: pieces =>
    fitting size room piece ++ pieced (room - total size (fitting size room piece)) pieces

/- Nothing is fitted in behind what was cut: a later piece is empty, or what it begins with
has no room either. -/
def Unbroken : (room : Nat) → List (List α) → Prop
  | _, [] => True
  | room, piece :: pieces =>
    if total size piece ≤ room then Unbroken (room - total size piece) pieces
    else ∀ later ∈ pieces, ∀ x ∈ later.head?, room - total size (fitting size room piece) < size x

instance decidableUnbroken : ∀ room pieces, Decidable (Unbroken size room pieces)
  | _, [] => inferInstanceAs (Decidable True)
  | room, piece :: pieces =>
    have := decidableUnbroken (room - total size piece) pieces
    inferInstanceAs (Decidable (if total size piece ≤ room then Unbroken size (room - total size piece) pieces
      else ∀ later ∈ pieces, ∀ x ∈ later.head?, room - total size (fitting size room piece) < size x))

variable {size} {room : Nat} {xs ys : List α} {pieces : List (List α)}

@[simp] theorem totalNil : total size [] = 0 := rfl

@[simp] theorem totalCons (x : α) (xs : List α) : total size (x :: xs) = size x + total size xs := rfl

@[simp] theorem totalAppend (xs ys : List α) : total size (xs ++ ys) = total size xs + total size ys := by
  unfold total
  rw [List.map_append, List.sum_append]

theorem fittingPrefix (room : Nat) (xs : List α) : fitting size room xs <+: xs := by
  induction xs generalizing room with
  | nil => exact List.nil_prefix
  | cons x xs ih =>
    unfold fitting
    split
    · exact (List.prefix_append_right_inj [x]).mpr (ih _)
    · exact List.nil_prefix

theorem fittingLongest (front : ys <+: xs) (fits : total size ys ≤ room) : ys <+: fitting size room xs := by
  induction xs generalizing room ys with
  | nil => exact front
  | cons x xs ih =>
    cases ys with
    | nil => exact List.nil_prefix
    | cons y ys =>
      obtain ⟨rfl,rest⟩ := List.cons_prefix_cons.mp front
      rw [totalCons] at fits
      rw [fitting, if_pos (by omega)]
      exact List.cons_prefix_cons.mpr ⟨rfl,ih rest (by omega)⟩

theorem fittingAll (fits : total size xs ≤ room) : fitting size room xs = xs :=
  (fittingPrefix room xs).eq_of_length_le (fittingLongest (List.prefix_refl xs) fits).length_le

theorem fittingAppend (fits : total size xs ≤ room) (ys : List α) :
    fitting size room (xs ++ ys) = xs ++ fitting size (room - total size xs) ys := by
  induction xs generalizing room with
  | nil => rfl
  | cons x xs ih =>
    rw [totalCons] at fits
    rw [List.cons_append, fitting, if_pos (by omega), ih (by omega), totalCons, Nat.sub_add_eq]
    rfl

theorem fittingCut (cut : ¬ total size xs ≤ room) (ys : List α) :
    fitting size room (xs ++ ys) = fitting size room xs := by
  induction xs generalizing room with
  | nil => exact absurd (Nat.zero_le room) cut
  | cons x xs ih =>
    rw [List.cons_append, fitting, fitting]
    split
    · rename_i here
      rw [totalCons] at cut
      rw [ih (by omega)]
    · rfl

theorem fittingNone : fitting size room xs = [] ↔ ∀ x ∈ xs.head?, room < size x := by
  cases xs with
  | nil => exact iff_of_true rfl (fun x mem => absurd mem (Option.not_mem_none x))
  | cons x xs =>
    rw [fitting, List.head?_cons]
    split
    · rename_i here
      refine iff_of_false (List.cons_ne_nil _ _) (fun none => ?_)
      have := none x rfl
      omega
    · rename_i here
      refine iff_of_true rfl (fun y mem => ?_)
      rw [← Option.some.inj mem]
      exact Nat.not_le.mp here

theorem piecedAppend (pieces : List (List α)) (piece : List α) : pieced size room (pieces ++ [piece]) =
    pieced size room pieces ++ fitting size (room - total size (pieced size room pieces)) piece := by
  induction pieces generalizing room with
  | nil => exact List.append_nil _
  | cons first pieces ih =>
    rw [List.cons_append, pieced, pieced, ih, totalAppend, List.append_assoc, Nat.sub_add_eq]

theorem piecedNone : pieced size room pieces = [] ↔ ∀ piece ∈ pieces, ∀ x ∈ piece.head?, room < size x := by
  induction pieces with
  | nil => exact iff_of_true rfl (List.forall_mem_nil _)
  | cons piece pieces ih =>
    rw [pieced, List.append_eq_nil_iff, List.forall_mem_cons]
    constructor
    · rintro ⟨first,rest⟩
      rw [first, totalNil, Nat.sub_zero] at rest
      exact ⟨fittingNone.mp first,ih.mp rest⟩
    · rintro ⟨first,rest⟩
      have none := fittingNone.mpr first
      rw [none, totalNil, Nat.sub_zero]
      exact ⟨rfl,ih.mpr rest⟩

/- The pieces come to the longest front of the whole exactly where nothing is fitted in
behind a cut. -/
theorem piecedFitting : pieced size room pieces = fitting size room pieces.flatten ↔ Unbroken size room pieces := by
  induction pieces generalizing room with
  | nil => exact iff_of_true rfl trivial
  | cons piece pieces ih =>
    rw [pieced, List.flatten_cons, Unbroken]
    split
    · rename_i fits
      rw [fittingAll fits, fittingAppend fits, List.append_cancel_left_eq]
      exact ih
    · rename_i cut
      rw [fittingCut cut, List.append_right_eq_self]
      exact piecedNone

end EpskcCommissioner.Fitting

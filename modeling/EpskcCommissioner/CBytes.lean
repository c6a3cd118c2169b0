import Mathlib.Data.List.Basic

/-! A buffer that C code reads by index. What C leaves undefined is a fault: a read at or
beyond the end, and a size below zero. So is a loop that outlasts its fuel. -/
namespace EpskcCommissioner.CBytes

inductive Fault where
  | read | wrap | fuel
  deriving DecidableEq, Repr

abbrev Checked := Except Fault

def byteAt (buf : List UInt8) (i : Nat) : Checked UInt8 :=
  match buf[i]? with
  | some b => .ok b
  | none => .error .read

/- `n` bytes from `i` on. -/
def bytesAt (buf : List UInt8) (i n : Nat) : Checked (List UInt8) :=
  if i + n ≤ buf.length then .ok ((buf.drop i).take n) else .error .read

/- `a - b` of sizes. -/
def less (a b : Nat) : Checked Nat := if b ≤ a then .ok (a - b) else .error .wrap

variable {buf rest : List UInt8} {i : Nat} {b : UInt8}

@[simp] theorem okBind {α β : Type} (a : α) (f : α → Checked β) : (Except.ok a >>= f) = f a := rfl

theorem byteAtDrop (behind : buf.drop i = b :: rest) : byteAt buf i = .ok b := by
  have found : buf[i]? = some b := by
    rw [← List.head?_drop, behind]
    rfl
  unfold byteAt
  rw [found]

theorem dropNext (behind : buf.drop i = b :: rest) : buf.drop (i + 1) = rest := by
  rw [← List.drop_drop, behind]
  rfl

theorem dropMore {pre : List UInt8} (behind : buf.drop i = pre ++ rest) :
    buf.drop (i + pre.length) = rest := by
  rw [← List.drop_drop, behind, List.drop_left]

theorem dropEnd {pre : List UInt8} (behind : buf.drop i = pre ++ rest) :
    buf.drop (buf.length - rest.length) = rest := by
  have whole : buf = (buf.take i ++ pre) ++ rest := by
    rw [List.append_assoc, ← behind, List.take_append_drop]
  have long := congrArg List.length whole
  rw [List.length_append] at long
  have place : buf.length - rest.length = (buf.take i ++ pre).length := by omega
  rw [place]
  exact (congrArg (List.drop _) whole).trans List.drop_left

theorem dropInside (behind : buf.drop i = b :: rest) : i < buf.length := by
  have long := congrArg List.length behind
  rw [List.length_drop, List.length_cons] at long
  omega

theorem lessRoom (inside : i ≤ buf.length) : less buf.length i = .ok (buf.drop i).length := by
  rw [less, if_pos inside, List.length_drop]

theorem bytesAtDrop {n : Nat} (room : n ≤ (buf.drop i).length) (inside : i ≤ buf.length) :
    bytesAt buf i n = .ok ((buf.drop i).take n) := by
  rw [List.length_drop] at room
  exact if_pos (by omega)

end EpskcCommissioner.CBytes

import Mathlib.Tactic.Common

/-! A first-in first-out queue of bounded length. A send fails exactly when the
queue is full, so a queue beyond its bound cannot be built. -/
namespace EpskcCommissioner

structure BoundedQueue (α : Type) (capacity : Nat) where
  items : List α
  fits : items.length ≤ capacity

namespace BoundedQueue

variable {α : Type} {capacity : Nat}

def empty : BoundedQueue α capacity := ⟨[],Nat.zero_le _⟩

def send (q : BoundedQueue α capacity) (a : α) : Option (BoundedQueue α capacity) :=
  if room : q.items.length < capacity then
    some ⟨q.items ++ [a],by rw [List.length_append]; exact room⟩
  else none

def receive (q : BoundedQueue α capacity) : Option (α × BoundedQueue α capacity) :=
  match q with
  | ⟨[],_⟩ => none
  | ⟨a :: rest,fits⟩ => some (a,⟨rest,Nat.le_trans (Nat.le_succ _) fits⟩)

theorem sendItems {q r : BoundedQueue α capacity} {a} (sent : q.send a = some r) :
    r.items = q.items ++ [a] := by
  unfold send at sent
  split at sent <;> try contradiction
  cases Option.some.inj sent
  rfl

theorem receiveItems {q r : BoundedQueue α capacity} {a} (received : q.receive = some (a,r)) :
    q.items = a :: r.items := by
  obtain ⟨items,fits⟩ := q
  cases items with
  | nil => exact nomatch received
  | cons b rest =>
    cases Option.some.inj received
    rfl

end BoundedQueue

end EpskcCommissioner

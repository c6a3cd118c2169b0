import Mathlib.Logic.Function.Basic

/-! A store whose writes are read at once and are safe behind a commit: a loss of power keeps
any of the writes since the last one, and loses the others. -/
namespace EpskcCommissioner

structure Durable (Key Value : Type) where
  seen : Key → Value
  safe : Key → Value

namespace Durable

variable {Key Value : Type}

def settled (content : Key → Value) : Durable Key Value := ⟨content,content⟩

def write [DecidableEq Key] (k : Key) (v : Value) (d : Durable Key Value) : Durable Key Value :=
  {d with seen := Function.update d.seen k v}

def clear (gone : Key → Bool) (v : Value) (d : Durable Key Value) : Durable Key Value :=
  {d with seen := fun k => if gone k then v else d.seen k}

def commit (d : Durable Key Value) : Durable Key Value := settled d.seen

def cut (kept : Key → Bool) (d : Durable Key Value) : Durable Key Value :=
  settled fun k => if kept k then d.seen k else d.safe k

def Safe (d : Durable Key Value) (k : Key) : Prop := d.safe k = d.seen k

theorem settledSafe (content : Key → Value) (k : Key) : (settled content).Safe k := rfl

theorem cutSafe {d : Durable Key Value} {k : Key} (safe : d.Safe k) (kept : Key → Bool) :
    (d.cut kept).seen k = d.seen k := by
  have same : d.safe k = d.seen k := safe
  change (if kept k then d.seen k else d.safe k) = d.seen k
  rw [same, ite_self]

variable [DecidableEq Key]

theorem writeSelf (k : Key) (v : Value) (d : Durable Key Value) : (d.write k v).seen k = v := Function.update_self ..

theorem writeOther {k other : Key} (apart : other ≠ k) (v : Value) (d : Durable Key Value) :
    (d.write k v).seen other = d.seen other := Function.update_of_ne apart ..

end Durable

end EpskcCommissioner

import Mathlib.Data.List.Basic

/-! Sequences of items in a code where the bytes of an item tell where it ends. What stands
at the front of some bytes is read off by `next`; the items of a string, as many as there
are, and what is left behind them are unique. -/
namespace EpskcCommissioner

structure PrefixCode (Item : Type) where
  encode : Item → List UInt8
  next : List UInt8 → Option (Item × List UInt8)
  exact : ∀ bytes item rest, next bytes = some (item,rest) ↔ bytes = encode item ++ rest
  progress : ∀ item, encode item ≠ []

namespace PrefixCode
variable {Item : Type} (code : PrefixCode Item)

def encodeAll (items : List Item) : List UInt8 := items.flatMap code.encode

def items : (fuel : Nat) → List UInt8 → List Item × List UInt8
  | 0, bytes => ([],bytes)
  | fuel + 1, bytes =>
    match code.next bytes with
    | none => ([],bytes)
    | some (item,rest) => (item :: (items fuel rest).1,(items fuel rest).2)

def split (bytes : List UInt8) : List Item × List UInt8 := code.items bytes.length bytes

theorem nextEncode (item : Item) (rest : List UInt8) : code.next (code.encode item ++ rest) = some (item,rest) :=
  (code.exact _ item rest).mpr rfl

theorem nextShorter {bytes rest : List UInt8} {item : Item} (found : code.next bytes = some (item,rest)) :
    rest.length < bytes.length := by
  rw [(code.exact bytes item rest).mp found, List.length_append]
  have some := List.length_pos_iff.mpr (code.progress item)
  omega

theorem encodeCons (item : Item) (items : List Item) (rest : List UInt8) :
    code.encodeAll (item :: items) ++ rest = code.encode item ++ (code.encodeAll items ++ rest) := by
  rw [encodeAll, List.flatMap_cons, List.append_assoc]
  rfl

theorem itemsSound {fuel : Nat} {bytes : List UInt8} (enough : bytes.length ≤ fuel) :
    bytes = code.encodeAll (code.items fuel bytes).1 ++ (code.items fuel bytes).2 ∧
      code.next (code.items fuel bytes).2 = none := by
  induction fuel generalizing bytes with
  | zero =>
    refine ⟨rfl,?_⟩
    cases found : code.next bytes with
    | none => exact found
    | some pair => exact absurd (code.nextShorter found) (by omega)
  | succ fuel ih =>
    cases found : code.next bytes with
    | none => simp [items,found,encodeAll]
    | some pair =>
      obtain ⟨item,rest⟩ := pair
      have shorter := code.nextShorter found
      obtain ⟨whole,stop⟩ := ih (show rest.length ≤ fuel by omega)
      simp only [items,found]
      refine ⟨?_,stop⟩
      rw [encodeCons, ← whole]
      exact (code.exact bytes item rest).mp found

theorem itemsEncoded {items : List Item} {rest : List UInt8} {fuel : Nat} (stop : code.next rest = none)
    (enough : items.length ≤ fuel) : code.items fuel (code.encodeAll items ++ rest) = (items,rest) := by
  induction items generalizing fuel with
  | nil => cases fuel <;> simp [PrefixCode.items,encodeAll,stop]
  | cons item items ih =>
    obtain ⟨fuel,rfl⟩ := Nat.exists_eq_add_of_le' (Nat.lt_of_lt_of_le (Nat.succ_pos _) enough)
    rw [encodeCons, PrefixCode.items, nextEncode]
    simp only [ih (Nat.le_of_succ_le_succ enough)]

theorem encodeLong (items : List Item) : items.length ≤ (code.encodeAll items).length := by
  induction items with
  | nil => exact Nat.zero_le _
  | cons item items ih =>
    have some := List.length_pos_iff.mpr (code.progress item)
    rw [encodeAll, List.flatMap_cons, List.length_append, List.length_cons]
    change items.length ≤ (items.flatMap code.encode).length at ih
    omega

/- The only way to read a string as items with something behind them that is not one. -/
theorem splitExact {bytes rest : List UInt8} {items : List Item} :
    code.split bytes = (items,rest) ↔ bytes = code.encodeAll items ++ rest ∧ code.next rest = none := by
  constructor
  · intro found
    have sound := code.itemsSound (Nat.le_refl bytes.length)
    rw [show code.items bytes.length bytes = _ from found] at sound
    exact sound
  · rintro ⟨rfl,stop⟩
    apply code.itemsEncoded stop
    rw [List.length_append]
    exact Nat.le_add_right_of_le (code.encodeLong items)

theorem splitWhole (bytes : List UInt8) :
    bytes = code.encodeAll (code.split bytes).1 ++ (code.split bytes).2 ∧
      code.next (code.split bytes).2 = none := code.itemsSound (Nat.le_refl bytes.length)

theorem splitBehind (before : List Item) (bytes : List UInt8) :
    code.split (code.encodeAll before ++ bytes) = (before ++ (code.split bytes).1,(code.split bytes).2) := by
  obtain ⟨whole,stop⟩ := code.splitWhole bytes
  apply code.splitExact.mpr
  refine ⟨?_,stop⟩
  rw [encodeAll, encodeAll, List.flatMap_append, List.append_assoc]
  exact congrArg (code.encodeAll before ++ ·) whole

theorem itemsSplit {bytes : List UInt8} {fuel : Nat} (enough : bytes.length ≤ fuel) :
    code.items fuel bytes = code.split bytes := by
  obtain ⟨whole,stop⟩ := code.itemsSound enough
  exact (code.splitExact.mpr ⟨whole,stop⟩).symm

end PrefixCode
end EpskcCommissioner

import Mathlib

/-! Decimal numbers: their digits, with a sign or filled up with zeros, and reading them
back. -/
namespace EpskcCommissioner.Decimal

def digits (n : Nat) : List Char := Nat.toDigits 10 n

def signed : Int → List Char
  | .ofNat n => digits n
  | .negSucc n => '-' :: digits (n + 1)

/- `%0*u`: at least `width` digits. -/
def padded (width n : Nat) : List Char :=
  List.replicate (width - (digits n).length) '0' ++ digits n

def readNatural (cs : List Char) : Option Nat :=
  if cs ≠ [] ∧ cs.all Char.isDigit then some (Nat.ofDigitChars 10 cs 0) else none

def readInteger : List Char → Option Int
  | '-' :: cs => (readNatural cs).map (fun n => -(n : Int))
  | '+' :: cs => (readNatural cs).map Int.ofNat
  | cs => (readNatural cs).map Int.ofNat

theorem digitsAll {n : Nat} {c : Char} (mem : c ∈ digits n) : c.isDigit = true :=
  Nat.isDigit_of_mem_toDigits (by decide) (by decide) mem

theorem digitsSome {n : Nat} : digits n ≠ [] := Nat.toDigits_ne_nil

theorem digitsLength {n k : Nat} (pos : 0 < k) (small : n < 10 ^ k) : (digits n).length ≤ k :=
  (Nat.length_toDigits_le_iff (by decide) pos).mpr small

theorem digitsHead {n : Nat} (zero : (digits n).head? = some '0') : n = 0 := by
  induction n using Nat.strongRecOn with
  | ind n ih =>
    by_cases small : n < 10
    · rw [digits, Nat.toDigits_of_lt_base small] at zero
      exact Nat.digitChar_eq_zero.mp (Option.some.inj zero)
    · rw [digits, Nat.toDigits_of_base_le (by decide) (Nat.le_of_not_lt small),
        List.head?_append_of_ne_nil _ Nat.toDigits_ne_nil] at zero
      have tens := ih (n / 10) (by omega) zero
      omega

theorem digitsPlain {n : Nat} : ¬ ((digits n).head? = some '0' ∧ 1 < (digits n).length) := by
  rintro ⟨zero,long⟩
  rw [digitsHead zero] at long
  exact absurd long (by decide)

theorem signedHead (n : Int) : ∃ c cs, signed n = c :: cs ∧ (c = '-' ∨ c.isDigit = true) := by
  cases n with
  | negSucc n => exact ⟨'-',_,rfl,.inl rfl⟩
  | ofNat n =>
    cases found : digits n with
    | nil => exact absurd found digitsSome
    | cons c cs => exact ⟨c,cs,found,.inr (digitsAll (n := n) (by rw [found]; exact List.mem_cons_self))⟩

theorem readNaturalDigits (n : Nat) : readNatural (digits n) = some n := by
  have all : (digits n).all Char.isDigit = true := List.all_eq_true.mpr (fun _ => digitsAll)
  rw [readNatural, if_pos ⟨digitsSome,all⟩, digits, Nat.ofDigitChars_ten_toDigits]

theorem readIntegerSigned (n : Int) : readInteger (signed n) = some n := by
  cases n with
  | negSucc n =>
    rw [signed, readInteger, readNaturalDigits]
    rfl
  | ofNat n =>
    have read := readNaturalDigits n
    rw [signed]
    cases found : digits n with
    | nil => exact absurd found digitsSome
    | cons c cs =>
      have digit := digitsAll (n := n) (c := c) (by rw [found]; exact List.mem_cons_self)
      rw [found] at read
      unfold readInteger
      split
      · rename_i same
        rw [(List.cons.inj same).1] at digit
        exact absurd digit (by decide)
      · rename_i same
        rw [(List.cons.inj same).1] at digit
        exact absurd digit (by decide)
      · rw [read]
        rfl

theorem digitsInjective {m n : Nat} (same : digits m = digits n) : m = n := by
  have read := readNaturalDigits m
  rw [same, readNaturalDigits n] at read
  exact (Option.some.inj read).symm

theorem paddedAll {width n : Nat} {c : Char} (mem : c ∈ padded width n) : c.isDigit = true := by
  rcases List.mem_append.mp mem with zero | digit
  · rw [(List.mem_replicate.mp zero).2]
    rfl
  · exact digitsAll digit

theorem newlineNoDigit {cs : List Char} (all : ∀ c ∈ cs, c = '-' ∨ c.isDigit = true) : '\n' ∉ cs :=
  fun mem => (all '\n' mem).elim (by decide) (by decide)

theorem paddedLength {width n k : Nat} (pos : 0 < k) (wide : width ≤ k) (small : n < 10 ^ k) :
    (padded width n).length ≤ k := by
  have := digitsLength pos small
  rw [padded, List.length_append, List.length_replicate]
  omega

theorem signedLength {n : Int} {k : Nat} (pos : 0 < k) (small : n.natAbs < 10 ^ k) :
    (signed n).length ≤ k + 1 := by
  cases n with
  | ofNat n => exact Nat.le_succ_of_le (digitsLength pos small)
  | negSucc n => exact Nat.succ_le_succ (digitsLength pos small)

theorem signedAll {n : Int} {c : Char} (mem : c ∈ signed n) : c = '-' ∨ c.isDigit = true := by
  cases n with
  | ofNat n => exact .inr (digitsAll mem)
  | negSucc n => exact (List.mem_cons.mp mem).imp id digitsAll

end EpskcCommissioner.Decimal

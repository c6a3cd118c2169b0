import EpskcCommissioner.CBuffer
import EpskcCommissioner.CString
import EpskcCommissioner.PowerLog

/-! The two loops that read a decimal number out of a string: `power_log_parse_uint` counts in
64 bits up to a maximum of its caller, `parse_udp_port` in 32 bits up to 65535. -/
namespace EpskcCommissioner.DigitLoops
open CBytes CString

def addDigit {w : Nat} (n : BitVec w) (c : UInt8) : BitVec w := n * 10#w + BitVec.ofNat w (c.toNat - 0x30)

/- The body of either loop; `none` is `return false`. -/
def turn {w : Nat} (most : Nat) (n : BitVec w) (c : UInt8) : Option (BitVec w) :=
  if c < 0x30 ∨ 0x39 < c then none
  else if most < (addDigit n c).toNat then none
  else some (addDigit n c)

/- `for (; *p; ++p)`. -/
def loop {w : Nat} (most : Nat) : BitVec w → List UInt8 → Checked (Option (BitVec w))
  | _, [] => .error .read
  | n, c :: rest =>
    if c = 0 then .ok (some n)
    else
      match turn most n c with
      | none => .ok none
      | some n => loop most n rest

/- The pointers may be NULL; what `out` points to comes back beside the result. -/
def powerLogParseUint (value : Option (List UInt8)) (maximum : UInt32) (out : Option UInt32) :
    Checked (Bool × Option UInt32) :=
  match value, out with
  | some value, some _ => do
    let first ← charAt value
    if first = 0 then return (false,out)
    match ← loop maximum.toNat 0#64 value with
    | none => return (false,out)
    | some n => return (true,some (UInt32.ofNat n.toNat))
  | _, _ => .ok (false,out)

def parseUdpPort (text : Option (List UInt8)) (port : Option UInt16) : Checked (Bool × Option UInt16) :=
  match text, port with
  | some text, some _ => do
    let first ← charAt text
    if first = 0 then return (false,port)
    match ← loop 0xffff 0#32 text with
    | none => return (false,port)
    | some value => return if value = 0 then (false,port) else (true,some (UInt16.ofNat value.toNat))
  | _, _ => .ok (false,port)

/- What either function takes: digits, at least one, and their number in a range. -/
def Writes (text : List UInt8) (least most : Nat) : Prop :=
  text ≠ [] ∧ text.all isDecimal = true ∧ least ≤ number text ∧ number text ≤ most

def value (n : Nat) (digits : List UInt8) : Nat := digits.foldl (fun n c => 10 * n + (c.toNat - 0x30)) n

variable {w most least : Nat} {n : BitVec w} {text : List UInt8} {c : UInt8}

instance : Decidable (Writes text least most) := by
  unfold Writes
  infer_instance

theorem decimalIff : isDecimal c = true ↔ ¬ (c < 0x30 ∨ 0x39 < c) := by
  unfold isDecimal
  rw [Bool.and_eq_true, decide_eq_true_iff, decide_eq_true_iff, not_or, UInt8.not_lt, UInt8.not_lt]

theorem digitSmall (digit : isDecimal c = true) : c.toNat - 0x30 ≤ 9 := by
  have high : c ≤ 0x39 := UInt8.not_lt.mp (not_or.mp (decimalIff.mp digit)).2
  have bound : c.toNat ≤ 57 := UInt8.le_iff_toNat_le.mp high
  omega

theorem valueGrows (n : Nat) (text : List UInt8) : n ≤ value n text := by
  induction text generalizing n with
  | nil => exact Nat.le_refl n
  | cons c text ih => exact Nat.le_trans (by omega) (ih (10 * n + (c.toNat - 0x30)))

theorem addDigitExact (room : most * 10 + 9 < 2 ^ w) (small : n.toNat ≤ most) (digit : isDecimal c = true) :
    (addDigit n c).toNat = n.toNat * 10 + (c.toNat - 0x30) := by
  have last := digitSmall digit
  have ten : (10#w).toNat = 10 ∨ n.toNat = 0 := by
    rw [BitVec.toNat_ofNat]
    rcases Nat.eq_zero_or_pos most with none | some
    · exact .inr (by omega)
    · exact .inl (Nat.mod_eq_of_lt (by omega))
  have times : n.toNat * (10#w).toNat = n.toNat * 10 := by
    rcases ten with ten | zero
    · rw [ten]
    · rw [zero, Nat.zero_mul, Nat.zero_mul]
  rw [addDigit, BitVec.toNat_add, BitVec.toNat_mul, BitVec.toNat_ofNat (c.toNat - 0x30), times,
    Nat.mod_eq_of_lt (show n.toNat * 10 < 2 ^ w by omega),
    Nat.mod_eq_of_lt (show c.toNat - 0x30 < 2 ^ w by omega), Nat.mod_eq_of_lt (by omega)]

theorem turnSmall {m : BitVec w} (turned : turn most n c = some m) : m.toNat ≤ most := by
  unfold turn at turned
  split at turned
  · cases turned
  · split at turned
    · cases turned
    · rename_i small
      cases turned
      exact Nat.le_of_not_lt small

theorem turnsSmall {m : BitVec w} (small : n.toNat ≤ most) (turned : text.foldlM (turn most) n = some m) :
    m.toNat ≤ most := by
  induction text generalizing n with
  | nil =>
    cases turned
    exact small
  | cons c text ih =>
    rw [List.foldlM_cons] at turned
    obtain ⟨next,first,rest⟩ := Option.bind_eq_some_iff.mp turned
    exact ih (turnSmall first) rest

theorem turnsExact (room : most * 10 + 9 < 2 ^ w) (small : n.toNat ≤ most) :
    text.foldlM (turn most) n =
      if text.all isDecimal = true ∧ value n.toNat text ≤ most then some (BitVec.ofNat w (value n.toNat text))
      else none := by
  induction text generalizing n with
  | nil =>
    rw [if_pos ⟨rfl,small⟩]
    exact congrArg some (BitVec.ofNat_toNat w n ▸ (BitVec.setWidth_eq n).symm)
  | cons c text ih =>
    rw [List.foldlM_cons, turn]
    by_cases digit : isDecimal c = true
    · have exact := addDigitExact room small digit
      have next : value n.toNat (c :: text) = value (addDigit n c).toNat text := by
        rw [exact, Nat.mul_comm]
        rfl
      rw [if_neg (decimalIff.mp digit), next, List.all_cons, digit, Bool.true_and]
      by_cases beyond : most < (addDigit n c).toNat
      · have grows := valueGrows (addDigit n c).toNat text
        rw [if_pos beyond, if_neg (fun inside => absurd inside.2 (by omega))]
        rfl
      · rw [if_neg beyond]
        exact ih (Nat.le_of_not_lt beyond)
    · rw [if_pos (not_not.mp (fun inside => digit (decimalIff.mpr inside))),
        if_neg (fun inside => digit (Bool.and_eq_true_iff.mp inside.1).1)]
      rfl

theorem loopRuns {behind : List UInt8} (noNul : 0 ∉ text) :
    loop most n (text ++ 0 :: behind) = .ok (text.foldlM (turn most) n) := by
  induction text generalizing n with
  | nil => rfl
  | cons c text ih =>
    obtain ⟨here,rest⟩ := List.ne_and_not_mem_of_not_mem_cons noNul
    rw [List.cons_append, loop, if_neg here.symm, List.foldlM_cons]
    cases turned : turn most n c with
    | none => rfl
    | some m => exact ih rest

theorem loopComes {behind : List UInt8} {m : BitVec w} (noNul : 0 ∉ text)
    (turned : text.foldlM (turn most) n = some m) : loop most n (text ++ behind) = loop most m behind := by
  induction text generalizing n with
  | nil =>
    cases turned
    rfl
  | cons c text ih =>
    obtain ⟨here,rest⟩ := List.ne_and_not_mem_of_not_mem_cons noNul
    rw [List.foldlM_cons] at turned
    obtain ⟨next,first,later⟩ := Option.bind_eq_some_iff.mp turned
    rw [List.cons_append, loop, if_neg here.symm, first]
    exact ih rest later

theorem loopGives {behind : List UInt8} (room : most * 10 + 9 < 2 ^ w) (noNul : 0 ∉ text) :
    loop most 0#w (text ++ 0 :: behind) =
      .ok (if text.all isDecimal = true ∧ number text ≤ most then some (BitVec.ofNat w (number text)) else none) := by
  rw [loopRuns noNul, turnsExact room (by rw [BitVec.toNat_zero]; exact Nat.zero_le most), BitVec.toNat_zero]
  rfl

theorem firstChar {behind : List UInt8} : charAt (text ++ 0 :: behind) = .ok (text.headD 0) := by
  cases text <;> rfl

theorem firstSome (noNul : 0 ∉ text) : text.headD 0 = 0 ↔ text = [] := by
  cases text with
  | nil => exact iff_of_true rfl rfl
  | cons c text => exact iff_of_false (fun zero => noNul (zero ▸ List.mem_cons_self)) (List.cons_ne_nil _ _)

theorem writesBits (room : most * 10 + 9 < 2 ^ w) (writes : Writes text least most) :
    (BitVec.ofNat w (number text)).toNat = number text := by
  have small := writes.2.2.2
  rw [BitVec.toNat_ofNat, Nat.mod_eq_of_lt (by omega)]

theorem maximumRoom (maximum : UInt32) : maximum.toNat * 10 + 9 < 2 ^ 64 := by
  have small := maximum.toNat_lt
  omega

theorem uintParsed {behind : List UInt8} (noNul : 0 ∉ text) (maximum out : UInt32) :
    powerLogParseUint (some (text ++ 0 :: behind)) maximum (some out) =
      .ok (decide (Writes text 0 maximum.toNat),
        some (if Writes text 0 maximum.toNat then UInt32.ofNat (number text) else out)) := by
  rw [powerLogParseUint, firstChar, okBind]
  by_cases empty : text = []
  · rw [if_pos ((firstSome noNul).mpr empty), if_neg (fun writes => writes.1 empty),
      decide_eq_false (fun writes => writes.1 empty)]
    rfl
  · rw [if_neg (fun zero => empty ((firstSome noNul).mp zero)), loopGives (maximumRoom maximum) noNul]
    by_cases inside : text.all isDecimal = true ∧ number text ≤ maximum.toNat
    · have writes : Writes text 0 maximum.toNat := ⟨empty,inside.1,Nat.zero_le _,inside.2⟩
      rw [if_pos inside, if_pos writes, decide_eq_true writes]
      change Except.ok (true,some (UInt32.ofNat (BitVec.ofNat 64 (number text)).toNat)) = _
      rw [writesBits (maximumRoom maximum) writes]
    · have others : ¬ Writes text 0 maximum.toNat := fun writes => inside ⟨writes.2.1,writes.2.2.2⟩
      rw [if_neg inside, if_neg others, decide_eq_false others]
      rfl

theorem portParsed {behind : List UInt8} (noNul : 0 ∉ text) (port : UInt16) :
    parseUdpPort (some (text ++ 0 :: behind)) (some port) =
      .ok (decide (Writes text 1 0xffff),some (if Writes text 1 0xffff then UInt16.ofNat (number text) else port)) := by
  rw [parseUdpPort, firstChar, okBind]
  by_cases empty : text = []
  · rw [if_pos ((firstSome noNul).mpr empty), if_neg (fun writes => writes.1 empty),
      decide_eq_false (fun writes => writes.1 empty)]
    rfl
  · rw [if_neg (fun zero => empty ((firstSome noNul).mp zero)), loopGives (by decide) noNul]
    by_cases inside : text.all isDecimal = true ∧ number text ≤ 0xffff
    · rw [if_pos inside]
      have same : (BitVec.ofNat 32 (number text)).toNat = number text :=
        writesBits (by decide) ⟨empty,inside.1,Nat.zero_le _,inside.2⟩
      by_cases zero : number text = 0
      · have others : ¬ Writes text 1 0xffff := fun writes => absurd writes.2.2.1 (by omega)
        rw [if_neg others, decide_eq_false others, zero]
        rfl
      · have writes : Writes text 1 0xffff := ⟨empty,inside.1,Nat.pos_of_ne_zero zero,inside.2⟩
        have nonzero : BitVec.ofNat 32 (number text) ≠ 0 := by
          intro none
          rw [none] at same
          exact zero same.symm
        rw [if_pos writes, decide_eq_true writes]
        change Except.ok (if BitVec.ofNat 32 (number text) = 0 then _ else _) = _
        rw [if_neg nonzero, same]
    · have others : ¬ Writes text 1 0xffff := fun writes => inside ⟨writes.2.1,writes.2.2.2⟩
      rw [if_neg inside, if_neg others, decide_eq_false others]
      rfl

structure Stored (accepted : Prop) (text : List UInt8) (before after : Nat) : Prop where
  exact : accepted → after = number text
  unchanged : ¬ accepted → after = before

theorem storedIf {accepted : Prop} [Decidable accepted] {before found : Nat} (exact : accepted → found = number text) :
    Stored accepted text before (if accepted then found else before) := by
  constructor
  · intro yes
    rw [if_pos yes]
    exact exact yes
  · intro no
    exact if_neg no

theorem noWrap {behind pre rest : List UInt8} {m : BitVec w} (room : most * 10 + 9 < 2 ^ w) (noNul : 0 ∉ text)
    (split : text = pre ++ c :: rest) (digit : isDecimal c = true) (turned : pre.foldlM (turn most) 0#w = some m) :
    loop most 0#w (text ++ 0 :: behind) = loop most m (c :: rest ++ 0 :: behind) ∧
      (addDigit m c).toNat = m.toNat * 10 + (c.toNat - 0x30) := by
  have front : 0 ∉ pre := fun mem => noNul (split ▸ List.mem_append_left _ mem)
  refine ⟨?_,addDigitExact room (turnsSmall ?_ turned) digit⟩
  · rw [split, List.append_assoc]
    exact loopComes front turned
  · rw [BitVec.toNat_zero]
    exact Nat.zero_le most

/- The paged handlers read their numbers with the same function. -/
theorem turnsSame {maximum : UInt32} {n : BitVec 64} (small : n.toNat ≤ maximum.toNat) :
    (text.foldlM (turn maximum.toNat) n).map (fun n => UInt32.ofNat n.toNat) =
      PowerLog.parseDigits maximum n.toNat text := by
  induction text generalizing n with
  | nil => rfl
  | cons c text ih =>
    rw [List.foldlM_cons, turn, PowerLog.parseDigits]
    by_cases digit : isDecimal c = true
    · have low : 0x30 ≤ c := UInt8.not_lt.mp (not_or.mp (decimalIff.mp digit)).1
      have exact : n.toNat * 10 + (c - 0x30).toNat = (addDigit n c).toNat := by
        rw [addDigitExact (maximumRoom maximum) small digit, UInt8.toNat_sub_of_le _ _ low]
        rfl
      rw [if_neg (decimalIff.mp digit), if_neg (decimalIff.mp digit), exact]
      by_cases beyond : maximum.toNat < (addDigit n c).toNat
      · rw [if_pos beyond, if_pos beyond]
        rfl
      · rw [if_neg beyond, if_neg beyond]
        exact ih (Nat.le_of_not_lt beyond)
    · have out := not_not.mp (fun inside => digit (decimalIff.mpr inside))
      rw [if_pos out, if_pos out]
      rfl

theorem uintSame {behind : List UInt8} (noNul : 0 ∉ text) (maximum out : UInt32) :
    powerLogParseUint (some (text ++ 0 :: behind)) maximum (some out) =
      .ok ((PowerLog.powerLogParseUint text maximum).isSome,
        some ((PowerLog.powerLogParseUint text maximum).getD out)) := by
  rw [powerLogParseUint, firstChar, okBind, PowerLog.powerLogParseUint]
  by_cases empty : text = []
  · rw [if_pos ((firstSome noNul).mpr empty), if_pos empty]
    rfl
  · have same : _ = PowerLog.parseDigits maximum 0 text := @turnsSame text maximum 0#64 (Nat.zero_le _)
    rw [if_neg (fun zero => empty ((firstSome noNul).mp zero)), if_neg empty, loopRuns noNul, ← same]
    cases text.foldlM (turn maximum.toNat) 0#64 <;> rfl

/- Both functions take the strings of digits whose number is in their range and store it, or
leave what was there. No product and no sum of their loops is cut off, so that the paged
handlers may be taken to read natural numbers. -/
theorem numbersParsed {text : List UInt8} (noNul : 0 ∉ text) (behind : List UInt8) :
    (∀ maximum out, ∃ after,
      powerLogParseUint (some (text ++ 0 :: behind)) maximum (some out) =
        .ok (decide (Writes text 0 maximum.toNat),some after) ∧
      Stored (Writes text 0 maximum.toNat) text out.toNat after.toNat) ∧
    (∀ port, ∃ after,
      parseUdpPort (some (text ++ 0 :: behind)) (some port) = .ok (decide (Writes text 1 65535),some after) ∧
      Stored (Writes text 1 65535) text port.toNat after.toNat) ∧
    (∀ pre c rest, text = pre ++ c :: rest → isDecimal c = true →
      (∀ (maximum : UInt32) (n : BitVec 64), pre.foldlM (turn maximum.toNat) 0#64 = some n →
        loop maximum.toNat 0#64 (text ++ 0 :: behind) = loop maximum.toNat n (c :: rest ++ 0 :: behind) ∧
        (addDigit n c).toNat = n.toNat * 10 + (c.toNat - 0x30)) ∧
      ∀ n : BitVec 32, pre.foldlM (turn 65535) 0#32 = some n →
        loop 65535 0#32 (text ++ 0 :: behind) = loop 65535 n (c :: rest ++ 0 :: behind) ∧
        (addDigit n c).toNat = n.toNat * 10 + (c.toNat - 0x30)) ∧
    ∀ maximum out, powerLogParseUint (some (text ++ 0 :: behind)) maximum (some out) =
      .ok ((PowerLog.powerLogParseUint text maximum).isSome,
        some ((PowerLog.powerLogParseUint text maximum).getD out)) := by
  refine ⟨fun maximum out => ⟨_,uintParsed noNul maximum out,?_⟩,fun port => ⟨_,portParsed noNul port,?_⟩,?_,
    uintSame noNul⟩
  · rw [apply_ite UInt32.toNat]
    exact storedIf fun writes =>
      UInt32.toNat_ofNat_of_lt' (Nat.lt_of_le_of_lt writes.2.2.2 maximum.toNat_lt)
  · rw [apply_ite UInt16.toNat]
    exact storedIf fun writes =>
      UInt16.toNat_ofNat_of_lt' (show number text < 65536 from Nat.lt_succ_of_le writes.2.2.2)
  · intro pre c rest split digit
    exact ⟨fun maximum n turned => noWrap (maximumRoom maximum) noNul split digit turned,
      fun n turned => noWrap (by decide) noNul split digit turned⟩

/- "0065535", with a byte behind its NUL. -/
theorem numbersParsedZeros :
    ∃ after, parseUdpPort (some ([0x30,0x30,0x36,0x35,0x35,0x33,0x35] ++ 0 :: [0x39])) (some 7) =
      .ok (true,some after) ∧ after.toNat = 65535 := by
  have noNul : (0 : UInt8) ∉ [0x30,0x30,0x36,0x35,0x35,0x33,0x35] := by decide
  obtain ⟨after,parsed,stored⟩ := (numbersParsed noNul [0x39]).2.1 7
  exact ⟨after,parsed,stored.exact (by decide)⟩

end EpskcCommissioner.DigitLoops

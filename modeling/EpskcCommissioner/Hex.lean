import Mathlib.Data.List.Forall2

/-! Bytes as pairs of hexadecimal digits: written in lower case, read in either. -/
namespace EpskcCommissioner.Hex

def digit (n : UInt8) : UInt8 := if n < 10 then 0x30 + n else 0x57 + n

def nibble (c : UInt8) : Option UInt8 :=
  if 0x30 ≤ c ∧ c ≤ 0x39 then some (c - 0x30)
  else if 0x61 ≤ c ∧ c ≤ 0x66 then some (c - 0x61 + 10)
  else if 0x41 ≤ c ∧ c ≤ 0x46 then some (c - 0x41 + 10)
  else none

def isDigit (c : UInt8) : Bool := (nibble c).isSome

def upper (c : UInt8) : UInt8 := if 0x61 ≤ c ∧ c ≤ 0x7a then c - 0x20 else c

def byteDigits (b : UInt8) : List UInt8 := [digit (b >>> 4),digit (b &&& 15)]

def encode (bytes : List UInt8) : List UInt8 := bytes.flatMap byteDigits

def decode : List UInt8 → Option (List UInt8)
  | [] => some []
  | [_] => none
  | a :: b :: rest =>
    match nibble a, nibble b with
    | some hi, some lo => (decode rest).map ((hi <<< 4 ||| lo) :: ·)
    | _, _ => none

/- The same text with any of its letters in upper case. -/
def Recased : List UInt8 → List UInt8 → Prop := List.Forall₂ (fun c d => d = c ∨ d = upper c)

theorem forallBytes {p : UInt8 → Prop} (all : ∀ n < 256, p (UInt8.ofNat n)) (b : UInt8) : p b := by
  have := all b.toNat b.toNat_lt
  rwa [UInt8.ofNat_toNat] at this

theorem halvesJoined (b : UInt8) : (b >>> 4) <<< 4 ||| b &&& 15 = b := by
  revert b
  exact forallBytes (by decide +kernel)

theorem nibbleHalves (b : UInt8) :
    nibble (digit (b >>> 4)) = some (b >>> 4) ∧ nibble (digit (b &&& 15)) = some (b &&& 15) := by
  revert b
  exact forallBytes (by decide +kernel)

theorem nibbleUpper (c : UInt8) (digit : nibble c ≠ none) : nibble (upper c) = nibble c := by
  revert c
  exact forallBytes (by decide +kernel)

theorem nibbleRecased {c d : UInt8} (same : d = c ∨ d = upper c) (digit : nibble c ≠ none) :
    nibble d = nibble c := by
  rcases same with rfl | rfl
  · rfl
  · exact nibbleUpper c digit

theorem nibbleWritten (c : UInt8) (n : UInt8) (read : nibble c = some n) :
    (c = digit n ∨ c = upper (digit n)) ∧ n < 16 := by
  revert n c
  refine forallBytes (p := fun c => ∀ n, nibble c = some n → _) fun k inside n read => ?_
  revert n
  have all : ∀ k < 256, ∀ n ∈ nibble (UInt8.ofNat k),
      (UInt8.ofNat k = digit n ∨ UInt8.ofNat k = upper (digit n)) ∧ n < 16 := by decide +kernel
  exact fun n read => all k inside n read

theorem joinedHalves {hi lo : UInt8} (high : hi < 16) (low : lo < 16) :
    (hi <<< 4 ||| lo) >>> 4 = hi ∧ (hi <<< 4 ||| lo) &&& 15 = lo := by
  have all : ∀ a < 16, ∀ b < 16,
      (UInt8.ofNat a <<< 4 ||| UInt8.ofNat b) >>> 4 = UInt8.ofNat a ∧
      (UInt8.ofNat a <<< 4 ||| UInt8.ofNat b) &&& 15 = UInt8.ofNat b := by decide
  have := all hi.toNat high lo.toNat low
  rwa [UInt8.ofNat_toNat, UInt8.ofNat_toNat] at this

theorem digitRange (d : UInt8) :
    d < 16 → 0x30 ≤ (digit d).toNat ∧ (digit d).toNat ≤ 0x66 ∧ (digit d).toNat ≠ 0x5c := by
  revert d
  exact forallBytes (by decide +kernel)

theorem byteDigitsRange (b : UInt8) :
    ∀ c ∈ byteDigits b, 0x30 ≤ c.toNat ∧ c.toNat ≤ 0x66 ∧ c.toNat ≠ 0x5c := by
  obtain ⟨first,second⟩ := nibbleHalves b
  unfold byteDigits
  simp only [List.forall_mem_cons]
  exact ⟨digitRange _ (nibbleWritten _ _ first).2,digitRange _ (nibbleWritten _ _ second).2,List.forall_mem_nil _⟩

@[simp] theorem encodeCons (b : UInt8) (bytes : List UInt8) :
    encode (b :: bytes) = digit (b >>> 4) :: digit (b &&& 15) :: encode bytes := rfl

theorem encodeLength (bytes : List UInt8) : (encode bytes).length = 2 * bytes.length := by
  induction bytes with
  | nil => rfl
  | cons b bytes ih => rw [encodeCons, List.length_cons, List.length_cons, List.length_cons, ih]; omega

theorem decodeRecased {bytes sent : List UInt8} (same : Recased (encode bytes) sent) :
    decode sent = some bytes := by
  induction bytes generalizing sent with
  | nil => cases same; rfl
  | cons b bytes ih =>
    rw [encodeCons] at same
    cases same with
    | cons first same =>
      cases same with
      | cons second same =>
        obtain ⟨high,low⟩ := nibbleHalves b
        have high := (nibbleRecased first (by rw [high]; nofun)).trans high
        have low := (nibbleRecased second (by rw [low]; nofun)).trans low
        simp only [decode,high,low,ih same,Option.map_some,halvesJoined]

/- What is read is the text that would be written, up to its case. -/
theorem decodeWritten {sent bytes : List UInt8} (read : decode sent = some bytes) :
    Recased (encode bytes) sent := by
  fun_induction decode sent generalizing bytes with
  | case1 =>
    cases Option.some.inj read
    exact .nil
  | case2 => nomatch read
  | case3 a b rest hi lo low high ih =>
    obtain ⟨tail,found,rfl⟩ := Option.map_eq_some_iff.mp read
    obtain ⟨first,small⟩ := nibbleWritten a hi high
    obtain ⟨second,small'⟩ := nibbleWritten b lo low
    obtain ⟨joinedHigh,joinedLow⟩ := joinedHalves small small'
    rw [encodeCons, joinedHigh, joinedLow]
    exact .cons first (.cons second (ih found))
  | case4 => nomatch read

theorem decodeSome (sent : List UInt8) :
    (decode sent).isSome ↔ sent.length % 2 = 0 ∧ ∀ c ∈ sent, isDigit c := by
  fun_induction decode sent with
  | case1 => simp
  | case2 => simp
  | case3 a b rest hi lo low high ih =>
    simp only [Option.isSome_map,ih,isDigit,List.length_cons,List.forall_mem_cons,low,high,
      Option.isSome_some,true_and,Nat.add_assoc,Nat.add_mod_right]
  | case4 a b rest bad =>
    simp only [Option.isSome_none,Bool.false_eq_true,false_iff,isDigit,List.forall_mem_cons]
    rintro ⟨_,high,low,_⟩
    obtain ⟨hi,high⟩ := Option.isSome_iff_exists.mp high
    obtain ⟨lo,low⟩ := Option.isSome_iff_exists.mp low
    exact bad hi lo high low

theorem decodeLength {sent bytes : List UInt8} (read : decode sent = some bytes) :
    sent.length = 2 * bytes.length := by
  rw [← (decodeWritten read).length_eq, encodeLength]

end EpskcCommissioner.Hex

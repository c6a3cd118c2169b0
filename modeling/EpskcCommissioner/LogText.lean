import Mathlib.Data.List.Basic

/-! The text of a log line. `append_clean` copies console bytes into a line's buffer,
without colour codes, control bytes or broken characters, and never beyond it. -/
namespace EpskcCommissioner.LogText

/- `LOG_RING_TEXT`, with its NUL. -/
def logRingText : Nat := 180

/- The text of a line so far: it leaves room for the NUL and has none inside. -/
structure Text where
  bytes : List UInt8
  fits : bytes.length < logRingText
  noNul : ∀ b ∈ bytes, b ≠ 0
  deriving DecidableEq, Repr

def Text.empty : Text := ⟨[],by decide,nofun⟩

def utf8Lead (b : UInt8) : Nat :=
  if 0xc2 ≤ b && b ≤ 0xdf then 2
  else if 0xe0 ≤ b && b ≤ 0xef then 3
  else if 0xf0 ≤ b && b ≤ 0xf4 then 4
  else 0

def isContinuation (b : UInt8) : Bool := b &&& 0xc0 == 0x80

/- `utf8_len`: the length of the character that the text starts with, or 0. -/
def utf8Len : List UInt8 → Nat
  | [] => 0
  | b :: rest =>
    let n := utf8Lead b
    if n = 0 || rest.length + 1 < n then 0
    else if !(rest.take (n - 1)).all isContinuation then 0
    else
      let second := rest.headD 0
      if (b == 0xe0 && second < 0xa0) || (b == 0xed && second > 0x9f) ||
          (b == 0xf0 && second < 0x90) || (b == 0xf4 && second > 0x8f) then 0
      else n

def escapeLen : List UInt8 → Nat
  | 0x5b :: rest => 1 + (rest.takeWhile (fun b => b < 0x40 || b > 0x7e)).length + 1
  | _ => 0

/- The bytes that `append_clean` puts behind `used` bytes; `skip` source bytes are
already dealt with. -/
def cleaned (used : Nat) : (skip : Nat) → List UInt8 → List UInt8
  | _, [] => []
  | skip + 1, _ :: rest => cleaned used skip rest
  | 0, c :: rest =>
    if logRingText - 1 ≤ used then []
    else if c = 0x1b then cleaned used (escapeLen rest) rest
    else if c = 0x0d then cleaned used 0 rest
    else if c < 0x20 || c == 0x7f then 0x20 :: cleaned (used + 1) 0 rest
    else if c < 0x80 then c :: cleaned (used + 1) 0 rest
    else
      let n := utf8Len (c :: rest)
      if n = 0 then 0x3f :: cleaned (used + 1) 0 rest
      else if used + n > logRingText - 1 then []
      else (c :: rest).take n ++ cleaned (used + n) (n - 1) rest

theorem leadNonzero {b : UInt8} (some : utf8Lead b ≠ 0) : b ≠ 0 := by
  rintro rfl
  exact some (by decide)

theorem continuationNonzero {b : UInt8} (continues : isContinuation b = true) : b ≠ 0 := by
  rintro rfl
  exact absurd continues (by decide)

theorem utf8LenInside {b : UInt8} {rest : List UInt8} (some : utf8Len (b :: rest) ≠ 0) :
    utf8Len (b :: rest) ≤ rest.length + 1 ∧
    ∀ c ∈ (b :: rest).take (utf8Len (b :: rest)), c ≠ 0 := by
  unfold utf8Len at some ⊢
  dsimp only at some ⊢
  split at some <;> try contradiction
  rename_i inside
  split at some <;> try contradiction
  rename_i continues
  split at some <;> try contradiction
  rename_i narrow
  rw [if_neg inside, if_neg continues, if_neg narrow]
  simp only [Bool.or_eq_true,decide_eq_true_eq,not_or,Nat.not_lt] at inside
  simp only [Bool.not_eq_true',Bool.not_eq_false] at continues
  refine ⟨inside.2,fun c mem => ?_⟩
  obtain ⟨n,lead⟩ := Nat.exists_eq_succ_of_ne_zero some
  rw [lead, List.take_succ_cons] at mem
  rcases List.mem_cons.mp mem with rfl | later
  · exact leadNonzero some
  · refine continuationNonzero (List.all_eq_true.mp continues c ?_)
    rw [lead]
    exact later

theorem cleanedFits (used skip : Nat) (src : List UInt8) (room : used < logRingText) :
    used + (cleaned used skip src).length < logRingText := by
  fun_induction cleaned used skip src with
  | case1 => exact room
  | case2 used skip head rest ih => exact ih room
  | case3 => exact room
  | case4 used rest _ ih => exact ih room
  | case5 used rest _ _ ih => exact ih room
  | case6 used c rest full _ _ _ ih =>
    rw [List.length_cons]
    have := ih (by omega)
    omega
  | case7 used c rest full _ _ _ _ ih =>
    rw [List.length_cons]
    have := ih (by omega)
    omega
  | case8 used c rest full _ _ _ _ _ _ ih =>
    rw [List.length_cons]
    have := ih (by omega)
    omega
  | case9 => exact room
  | case10 used c rest full _ _ _ _ n some whole ih =>
    have inside := (utf8LenInside some).1
    rw [List.length_append, List.length_take, List.length_cons, Nat.min_eq_left inside]
    have := ih (by omega)
    omega

theorem cleanedNoNul (used skip : Nat) (src : List UInt8) : ∀ b ∈ cleaned used skip src, b ≠ 0 := by
  fun_induction cleaned used skip src with
  | case1 => exact nofun
  | case2 used skip head rest ih => exact ih
  | case3 => exact nofun
  | case4 used rest _ ih => exact ih
  | case5 used rest _ _ ih => exact ih
  | case6 used c rest _ _ _ _ ih =>
    intro b mem
    rcases List.mem_cons.mp mem with rfl | later
    · decide
    · exact ih b later
  | case7 used c rest _ _ _ control _ ih =>
    intro b mem
    rcases List.mem_cons.mp mem with rfl | later
    · rintro rfl
      exact control rfl
    · exact ih b later
  | case8 used c rest _ _ _ _ _ _ _ ih =>
    intro b mem
    rcases List.mem_cons.mp mem with rfl | later
    · decide
    · exact ih b later
  | case9 => exact nofun
  | case10 used c rest _ _ _ _ _ n some _ ih =>
    intro b mem
    rcases List.mem_append.mp mem with own | later
    · exact (utf8LenInside some).2 b own
    · exact ih b later

def appendClean (dst : Text) (src : List UInt8) : Text where
  bytes := dst.bytes ++ cleaned dst.bytes.length 0 src
  fits := by
    rw [List.length_append]
    exact cleanedFits _ _ _ dst.fits
  noNul := by
    intro b mem
    rcases List.mem_append.mp mem with old | new
    · exact dst.noNul b old
    · exact cleanedNoNul _ _ _ b new

end EpskcCommissioner.LogText

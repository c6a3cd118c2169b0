import EpskcCommissioner.CBytes
import Mathlib.Data.List.TakeWhile

/-! A string that C code walks with a pointer: the pointer is what lies before it, the
terminator with it. A read behind the terminator is a fault. -/
namespace EpskcCommissioner.CString
open CBytes

def terminated (text : List UInt8) : List UInt8 := text ++ [0]

/- `*p`. -/
def charAt : List UInt8 → Checked UInt8
  | [] => .error .read
  | c :: _ => .ok c

/- `while (p(*s)) s++`. -/
def skipWhile (p : UInt8 → Bool) : List UInt8 → Checked (List UInt8)
  | [] => .error .read
  | c :: rest => if p c then skipWhile p rest else .ok (c :: rest)

/- `isdigit`. -/
def isDecimal (c : UInt8) : Bool := 0x30 ≤ c && c ≤ 0x39

def number (digits : List UInt8) : Nat := digits.foldl (fun n c => 10 * n + (c.toNat - 0x30)) 0

variable {p : UInt8 → Bool} {text rest : List UInt8} {c : UInt8}

@[simp] theorem charAtTerminated (text : List UInt8) : charAt (terminated text) = .ok (text.headD 0) := by
  cases text <;> rfl

@[simp] theorem terminatedTail : (terminated (c :: text)).tail = terminated text := rfl

theorem terminatedCons : terminated (c :: text) = c :: terminated text := rfl

theorem terminatedLength (text : List UInt8) : (terminated text).length = text.length + 1 := by
  simp [terminated]

theorem terminatedInj (same : terminated text = terminated rest) : text = rest :=
  List.append_cancel_right same

theorem skipWhileTerminated (stops : p 0 = false) (text : List UInt8) :
    skipWhile p (terminated text) = .ok (terminated (text.dropWhile p)) := by
  induction text with
  | nil => simp [terminated,skipWhile,stops]
  | cons c rest ih =>
    rw [terminatedCons, skipWhile, ih]
    cases here : p c <;> simp [here,terminatedCons]

theorem skipWhileAppend (stops : p 0 = false) (pass : ∀ c ∈ text, p c = true) (stay : p (rest.headD 0) = false) :
    skipWhile p (terminated (text ++ rest)) = .ok (terminated rest) := by
  have left : rest.dropWhile p = rest := by
    cases rest with
    | nil => rfl
    | cons c cs => exact List.dropWhile_cons_of_neg (by rw [Bool.not_eq_true]; exact stay)
  rw [skipWhileTerminated stops, List.dropWhile_append_of_pos pass, left]

theorem dropWhileStays (stops : p 0 = false) (text : List UInt8) : p ((text.dropWhile p).headD 0) = false := by
  induction text with
  | nil => exact stops
  | cons c rest ih =>
    cases here : p c with
    | true => rwa [List.dropWhile_cons_of_pos here]
    | false =>
      rw [List.dropWhile_cons_of_neg (by rw [here]; exact Bool.false_ne_true)]
      exact here

theorem skipWhileSplits (stops : p 0 = false) (text : List UInt8) : ∃ passed rest : List UInt8,
    text = passed ++ rest ∧ (∀ c ∈ passed, p c = true) ∧ p (rest.headD 0) = false ∧
      skipWhile p (terminated text) = .ok (terminated rest) :=
  ⟨text.takeWhile p,text.dropWhile p,List.takeWhile_append_dropWhile.symm,
    fun _ mem => List.mem_takeWhile_imp mem,dropWhileStays stops text,skipWhileTerminated stops text⟩

theorem headRead (found : text.headD 0 = c) (some : c ≠ 0) : ∃ rest, text = c :: rest := by
  cases text with
  | nil => exact absurd found.symm some
  | cons d rest => exact ⟨rest,by rw [← found]; rfl⟩

end EpskcCommissioner.CString

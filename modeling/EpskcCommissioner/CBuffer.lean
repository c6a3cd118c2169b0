import EpskcCommissioner.CBytes

/-! A buffer that C code fills from its front. A store at or beyond its end is a fault, so
that a run without one has left everything behind the buffer alone. -/
namespace EpskcCommissioner.CBuffer
open CBytes (Checked)

inductive Fault where
  | store
  | other (fault : CBytes.Fault)
  deriving DecidableEq, Repr

abbrev Stored := Except Fault

def reading {α : Type} (read : Checked α) : Stored α := read.mapError .other

structure Out where
  buf : List UInt8
  pos : Nat
  deriving DecidableEq, Repr

/- `buf[i] = b` -/
def store (buf : List UInt8) (i : Nat) (b : UInt8) : Stored (List UInt8) :=
  if i < buf.length then .ok (buf.set i b) else .error .store

/- `*out++ = b` -/
def put (out : Out) (b : UInt8) : Stored Out := do
  let buf ← store out.buf out.pos b
  .ok ⟨buf,out.pos + 1⟩

/- Several of these in a row, or `memcpy`. -/
def putAll : Out → List UInt8 → Stored Out
  | out, [] => .ok out
  | out, b :: bs => do
    let out ← put out b
    putAll out bs

/- `snprintf` of a text: what does not fit in front of the NUL is cut off, and the length
of the whole text is returned. -/
def snprintf (buf : List UInt8) (cap : Nat) (text : List UInt8) : Stored (List UInt8 × Nat) :=
  if cap = 0 then .ok (buf,text.length)
  else do
    let out ← putAll ⟨buf,0⟩ (text.take (cap - 1))
    let out ← put out 0
    .ok (out.buf,text.length)

def stringIn (buf : List UInt8) : List UInt8 := buf.takeWhile (· != 0)

structure Filled (size : Nat) (text : List UInt8) (out : Out) : Prop where
  size : out.buf.length = size
  place : out.pos = text.length
  text : text <+: out.buf

variable {buf text bs : List UInt8} {b : UInt8} {out : Out} {size cap : Nat}

@[simp] theorem okBind {α β : Type} (a : α) (f : α → Stored β) : (Except.ok a >>= f) = f a := rfl

@[simp] theorem readingOk {α : Type} (a : α) : reading (.ok a) = .ok a := rfl

theorem storeInside {i : Nat} (inside : i < buf.length) : store buf i b = .ok (buf.set i b) :=
  if_pos inside

theorem setPrefix (front : text <+: buf) (room : text.length < buf.length) :
    text ++ [b] <+: buf.set text.length b := by
  obtain ⟨rest,rfl⟩ := front
  cases rest with
  | nil => simp at room
  | cons c rest =>
    refine ⟨rest,?_⟩
    rw [List.set_append_right _ _ (Nat.le_refl _), Nat.sub_self, List.set_cons_zero, List.append_assoc]
    rfl

theorem filledStart (buf : List UInt8) : Filled buf.length [] ⟨buf,0⟩ := ⟨rfl,rfl,List.nil_prefix⟩

theorem putFilled (filled : Filled size text out) (b : UInt8) (room : text.length < size) :
    ∃ more, put out b = .ok more ∧ Filled size (text ++ [b]) more := by
  obtain ⟨long,place,front⟩ := filled
  have inside : out.pos < out.buf.length := by omega
  refine ⟨⟨out.buf.set out.pos b,out.pos + 1⟩,?_,?_,?_,?_⟩
  · rw [put, storeInside inside, okBind]
  · exact List.length_set.trans long
  · rw [place, List.length_append, List.length_singleton]
  · rw [place]
    exact setPrefix front (by omega)

theorem putAllFilled (filled : Filled size text out) (bs : List UInt8) (room : text.length + bs.length ≤ size) :
    ∃ more, putAll out bs = .ok more ∧ Filled size (text ++ bs) more := by
  induction bs generalizing text out with
  | nil => exact ⟨out,rfl,by rwa [List.append_nil]⟩
  | cons b bs ih =>
    rw [List.length_cons] at room
    obtain ⟨more,done,filled⟩ := putFilled filled b (by omega)
    obtain ⟨last,rest,filled⟩ := ih filled (by rw [List.length_append, List.length_singleton]; omega)
    refine ⟨last,?_,?_⟩
    · rw [putAll, done, okBind, rest]
    · rwa [List.append_cons]

theorem storeFilled (filled : Filled size text out) (b : UInt8) (room : text.length < size) :
    ∃ last, store out.buf out.pos b = .ok last ∧ last.length = size ∧ text ++ [b] <+: last := by
  obtain ⟨long,place,front⟩ := filled
  refine ⟨out.buf.set out.pos b,storeInside (by omega),List.length_set.trans long,?_⟩
  rw [place]
  exact setPrefix front (by omega)

theorem snprintfStores (some : 0 < cap) (size : buf.length = cap) (text : List UInt8) :
    ∃ printed, snprintf buf cap text = .ok (printed,text.length) ∧ printed.length = cap ∧
      text.take (cap - 1) ++ [0] <+: printed := by
  have short : (text.take (cap - 1)).length ≤ cap - 1 := List.length_take_le _ _
  have start := filledStart buf
  rw [size] at start
  obtain ⟨body,copied,filled⟩ := putAllFilled start (text.take (cap - 1)) (by
    rw [List.length_nil]
    omega)
  obtain ⟨last,ended,filled⟩ := putFilled filled 0 (by rw [List.nil_append]; omega)
  refine ⟨last.buf,?_,filled.size,filled.text⟩
  rw [snprintf, if_neg (by omega), copied, okBind, ended, okBind]

theorem stringInFront (noNul : 0 ∉ text) (front : text ++ [0] <+: buf) : stringIn buf = text := by
  obtain ⟨rest,rfl⟩ := front
  have plain : ∀ b ∈ text, (b != 0) = true := fun b mem => bne_iff_ne.mpr (fun zero => noNul (zero ▸ mem))
  rw [stringIn, List.append_assoc, List.takeWhile_append_of_pos plain]
  simp

theorem snprintfWhole (size : buf.length = cap) (noNul : 0 ∉ text) (fits : text.length < cap) :
    ∃ printed, snprintf buf cap text = .ok (printed,text.length) ∧ stringIn printed = text := by
  obtain ⟨printed,done,_,front⟩ := snprintfStores (by omega) size text
  rw [List.take_of_length_le (by omega)] at front
  exact ⟨printed,done,stringInFront noNul front⟩

end EpskcCommissioner.CBuffer

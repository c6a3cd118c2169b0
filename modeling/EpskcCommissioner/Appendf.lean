import EpskcCommissioner.CBuffer

/-! `appendf` of `ui.c`, with which the power page and the diagnostics page build their texts
in one buffer each. Whatever is appended, the page is the start of all of it. -/
namespace EpskcCommissioner.Appendf
open CBytes (less)
open CBuffer

/- `vsnprintf(buf + place, room, ..)` of a text that it can format. -/
def vsnprintfAt (buf : List UInt8) (place room : Nat) (text : List UInt8) : Stored (List UInt8) :=
  if room = 0 then .ok buf
  else do
    let out ← putAll ⟨buf,place⟩ (text.take (room - 1))
    store out.buf out.pos 0

/- `out.pos` is `*used`; a text that cannot be formatted is `none`. -/
def appendf (cap : Nat) (out : Out) (formatted : Option (List UInt8)) : Stored Out :=
  if cap ≤ out.pos then .ok out
  else do
    let room ← reading (less cap out.pos)
    match formatted with
    | none => .ok out
    | some text => do
      let buf ← vsnprintfAt out.buf out.pos room text
      .ok ⟨buf,if room ≤ text.length then cap - 1 else out.pos + text.length⟩

def wholeText (texts : List (Option (List UInt8))) : List UInt8 := (texts.filterMap id).flatten

/- A page after some calls: where the next text goes, and what stands in front of it. Before
the first text there is no NUL. -/
structure Shows (cap : Nat) (texts : List (Option (List UInt8))) (out : Out) : Prop where
  size : out.buf.length = cap
  used : out.pos = min (cap - 1) (wholeText texts).length
  front : (wholeText texts).take (cap - 1) <+: out.buf
  ended : texts.filterMap id ≠ [] → (wholeText texts).take (cap - 1) ++ [0] <+: out.buf

variable {cap : Nat} {out : Out} {texts : List (Option (List UInt8))} {text : List UInt8}

theorem wholeSnoc (texts : List (Option (List UInt8))) (text : List UInt8) :
    wholeText (texts ++ [some text]) = wholeText texts ++ text := by
  simp [wholeText]

theorem wholeFailed (texts : List (Option (List UInt8))) : (texts ++ [none]).filterMap id = texts.filterMap id := by
  simp

theorem showsNothing (buf : Vector UInt8 cap) : Shows cap [] ⟨buf.toList,0⟩ where
  size := Vector.length_toList
  used := (Nat.min_zero _).symm
  front := by
    rw [show wholeText [] = [] from rfl, List.take_nil]
    exact List.nil_prefix
  ended := fun some => absurd rfl some

theorem takeMore (before text : List UInt8) (size : Nat) :
    (before ++ text).take size = before.take size ++ text.take (size - min size before.length) := by
  rw [List.take_append]
  congr 2
  omega

theorem appendText (room : 0 < cap) (shows : Shows cap texts out) (text : List UInt8) :
    ∃ after, appendf cap out (some text) = .ok after ∧ Shows cap (texts ++ [some text]) after := by
  obtain ⟨size,used,front,_⟩ := shows
  have inside : out.pos < cap := by omega
  have long : ((wholeText texts).take (cap - 1)).length = out.pos := by rw [List.length_take, used]
  have filled : Filled cap ((wholeText texts).take (cap - 1)) out := ⟨size,long.symm,front⟩
  have cut := List.length_take_le (cap - out.pos - 1) text
  obtain ⟨body,copied,filled⟩ := putAllFilled filled (text.take (cap - out.pos - 1)) (by omega)
  have all : (wholeText texts).take (cap - 1) ++ text.take (cap - out.pos - 1) =
      (wholeText (texts ++ [some text])).take (cap - 1) := by
    rw [wholeSnoc, takeMore, ← used, Nat.sub_right_comm]
  rw [all] at filled
  have short : ((wholeText (texts ++ [some text])).take (cap - 1)).length < cap := by
    have := List.length_take_le (cap - 1) (wholeText (texts ++ [some text]))
    omega
  obtain ⟨last,ended,size,front⟩ := storeFilled filled 0 short
  refine ⟨⟨last,if cap - out.pos ≤ text.length then cap - 1 else out.pos + text.length⟩,?_,size,?_,
    (List.prefix_append _ _).trans front,fun _ => front⟩
  · rw [appendf, if_neg (by omega), less, if_pos (Nat.le_of_lt inside), readingOk, okBind]
    dsimp only
    rw [vsnprintfAt, if_neg (by omega), copied, okBind, ended, okBind]
  · rw [wholeSnoc, List.length_append]
    dsimp only
    split
    · omega
    · omega

theorem appendFailed (room : 0 < cap) (shows : Shows cap texts out) :
    appendf cap out none = .ok out ∧ Shows cap (texts ++ [none]) out := by
  have same : wholeText (texts ++ [none]) = wholeText texts := congrArg List.flatten (wholeFailed texts)
  have inside : out.pos < cap := by
    have := shows.used
    omega
  constructor
  · rw [appendf, if_neg (by omega), less, if_pos (Nat.le_of_lt inside)]
    rfl
  · obtain ⟨size,used,front,ended⟩ := shows
    exact ⟨size,same ▸ used,same ▸ front,fun some => same ▸ ended (wholeFailed texts ▸ some)⟩

theorem appendShows (room : 0 < cap) (shows : Shows cap texts out) (formatted : Option (List UInt8)) :
    ∃ after, appendf cap out formatted = .ok after ∧ Shows cap (texts ++ [formatted]) after := by
  cases formatted with
  | none => exact ⟨out,appendFailed room shows⟩
  | some text => exact appendText room shows text

theorem appendsShow (room : 0 < cap) (shows : Shows cap texts out) (more : List (Option (List UInt8))) :
    ∃ after, more.foldlM (appendf cap) out = .ok after ∧ Shows cap (texts ++ more) after := by
  induction more generalizing texts out with
  | nil => exact ⟨out,rfl,by rwa [List.append_nil]⟩
  | cons formatted more ih =>
    obtain ⟨next,appended,shows⟩ := appendShows room shows formatted
    obtain ⟨after,rest,shows⟩ := ih shows
    refine ⟨after,?_,?_⟩
    · rw [List.foldlM_cons, appended, okBind, rest]
    · rwa [List.append_cons]

/- In every sequence of calls none stores outside the buffer, what is left of it is never
negative, and it holds the start of all texts, NUL-terminated from the first one on. -/
theorem pageHolds (room : 0 < cap) (buf : Vector UInt8 cap) (texts : List (Option (List UInt8))) :
    ∃ out, texts.foldlM (appendf cap) ⟨buf.toList,0⟩ = .ok out ∧ out.pos ≤ cap - 1 ∧ Shows cap texts out := by
  obtain ⟨out,done,shows⟩ := appendsShow room (showsNothing buf) texts
  exact ⟨out,done,shows.used ▸ Nat.min_le_left _ _,shows⟩

/- Five bytes for "ab", a text that fails, "cde" and "f". -/
theorem pageHoldsCut : ∃ out,
    [some [0x61,0x62],none,some [0x63,0x64,0x65],some [0x66]].foldlM (appendf 5) ⟨List.replicate 5 0xff,0⟩ = .ok out ∧
      [0x61,0x62,0x63,0x64,0] <+: out.buf := by
  obtain ⟨out,done,_,shows⟩ := pageHolds (by decide) (Vector.replicate 5 0xff)
    [some [0x61,0x62],none,some [0x63,0x64,0x65],some [0x66]]
  exact ⟨out,done,shows.ended (by decide)⟩

end EpskcCommissioner.Appendf

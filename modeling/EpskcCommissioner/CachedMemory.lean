import Mathlib.Logic.Function.Basic

/-! Memory behind a write-back cache. The program reads and writes the view; a cache line
may be written back at any time, and only what was written back survives the loss of the
cache. What should be in memory is a partial assignment of cells: where the view has it,
writing lines back brings it into the memory and never takes it out again. -/
namespace EpskcCommissioner

variable {Loc Line : Type} {Cell : Loc → Type}

structure CachedMemory (Cell : Loc → Type) where
  view : ∀ l, Cell l
  stored : ∀ l, Cell l

namespace CachedMemory

def store [DecidableEq Loc] (l : Loc) (v : Cell l) (m : CachedMemory Cell) : CachedMemory Cell :=
  {m with view := Function.update m.view l v}

def writeBack [DecidableEq Line] (line : Loc → Line) (k : Line) (m : CachedMemory Cell) :
    CachedMemory Cell :=
  {m with stored := fun l => if line l = k then m.view l else m.stored l}

def writeBackAll [DecidableEq Line] (line : Loc → Line) (work : List Line) (m : CachedMemory Cell) :
    CachedMemory Cell :=
  work.foldl (fun m k => m.writeBack line k) m

def lose (m : CachedMemory Cell) : CachedMemory Cell := ⟨m.stored,m.stored⟩

def Shows (want : ∀ l, Option (Cell l)) (cells : ∀ l, Cell l) : Prop :=
  ∀ l v, want l = some v → cells l = v

/- The cells have it outside the lines that are still to be written back. -/
def ShowsBut (line : Loc → Line) (work : List Line) (want : ∀ l, Option (Cell l))
    (cells : ∀ l, Cell l) : Prop :=
  ∀ l v, want l = some v → line l ∈ work ∨ cells l = v

variable {want : ∀ l, Option (Cell l)} {m : CachedMemory Cell} {line : Loc → Line}

theorem storeSame [DecidableEq Loc] (l : Loc) (v : Cell l) : (m.store l v).view l = v :=
  Function.update_self l v m.view

theorem storeOther [DecidableEq Loc] {l other : Loc} (v : Cell l) (ne : other ≠ l) :
    (m.store l v).view other = m.view other :=
  Function.update_of_ne ne v m.view

theorem showsWriteBack [DecidableEq Line] (k : Line) (viewed : Shows want m.view)
    (kept : Shows want m.stored) : Shows want (m.writeBack line k).stored := by
  intro l v wanted
  change (if line l = k then m.view l else m.stored l) = v
  split
  · exact viewed l v wanted
  · exact kept l v wanted

theorem showsButWriteBack [DecidableEq Line] {work : List Line} (k : Line)
    (viewed : Shows want m.view) (kept : ShowsBut line work want m.stored) :
    ShowsBut line work want (m.writeBack line k).stored := by
  intro l v wanted
  refine (kept l v wanted).imp_right (fun here => ?_)
  change (if line l = k then m.view l else m.stored l) = v
  split
  · exact viewed l v wanted
  · exact here

theorem showsButNext [DecidableEq Line] {k : Line} {work : List Line} (viewed : Shows want m.view)
    (kept : ShowsBut line (k :: work) want m.stored) :
    ShowsBut line work want (m.writeBack line k).stored := by
  intro l v wanted
  change _ ∨ (if line l = k then m.view l else m.stored l) = v
  split
  · exact .inr (viewed l v wanted)
  · rename_i other
    exact (kept l v wanted).imp_left (fun mem => (List.mem_cons.mp mem).resolve_left other)

theorem showsButNil {cells : ∀ l, Cell l} (kept : ShowsBut line [] want cells) : Shows want cells :=
  fun l v wanted => (kept l v wanted).resolve_left List.not_mem_nil

theorem showsButAll {work : List Line} {cells : ∀ l, Cell l}
    (all : ∀ l v, want l = some v → line l ∈ work) : ShowsBut line work want cells :=
  fun l v wanted => .inl (all l v wanted)

theorem writeBackAllView [DecidableEq Line] (work : List Line) (m : CachedMemory Cell) :
    (m.writeBackAll line work).view = m.view := by
  induction work generalizing m with
  | nil => rfl
  | cons k rest ih => exact ih (m.writeBack line k)

theorem writeBackAllOther [DecidableEq Line] {l : Loc} (work : List Line) (m : CachedMemory Cell)
    (other : line l ∉ work) : (m.writeBackAll line work).stored l = m.stored l := by
  induction work generalizing m with
  | nil => rfl
  | cons k rest ih =>
    obtain ⟨here,later⟩ := not_or.mp (fun mem => other (List.mem_cons.mpr mem))
    exact (ih (m.writeBack line k) later).trans (if_neg here)

theorem showsWriteBackAll [DecidableEq Line] (work : List Line) (m : CachedMemory Cell)
    (viewed : Shows want m.view) (kept : ShowsBut line work want m.stored) :
    Shows want (m.writeBackAll line work).stored := by
  induction work generalizing m with
  | nil => exact showsButNil kept
  | cons k rest ih => exact ih (m.writeBack line k) viewed (showsButNext viewed kept)

end CachedMemory

end EpskcCommissioner

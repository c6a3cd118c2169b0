import EpskcCommissioner.LogRingCuts
import EpskcCommissioner.Machine

/-! The hook of `esp_log`. A text that the format buffer has no room for is ingested cut, and
whether its line has ended is then read off the format. -/
namespace EpskcCommissioner.LogCapture
open LogText LogRing LogRingDevice LogRingTasks LogRingOwners LogChars LogRingCuts Utf8 Fitting

def formatBuffer : Nat := 192

/- `capture_vprintf`, with the hook in place: what it ingests of the formatted text, if the
formatting gave one. -/
def captureVprintf (fmt : List UInt8) (formatted : Option (List UInt8)) : List (List UInt8) :=
  match formatted with
  | none => []
  | some text =>
    if text.length < formatBuffer then [text]
    else text.take (formatBuffer - 1) :: if fmt.getLast? = some 0x0a then [[0x0a]] else []

/- The last field is history: the last text that the task has formatted ended with a newline. -/
structure Capture where
  ram : Ram
  left : Nat → List (List UInt8)
  ended : Nat → Bool

/- A task's call up to its first `ingest`, and the one after it. -/
inductive Label where
  | log (task : Nat) (nowMs : UInt32) (fmt : List UInt8) (formatted : Option (List UInt8))
  | ingest (task : Nat) (nowMs : UInt32)
  deriving DecidableEq, Repr

def endsLine (text : List UInt8) : Bool := text.getLast? == some 0x0a

def ingestNext (task : Nat) (nowMs : UInt32) (chunks : List (List UInt8)) (s : Capture) : Capture :=
  match chunks with
  | [] => s
  | chunk :: chunks =>
    {s with ram := (owned ⟨task,nowMs,chunk⟩ s.ram).1, left := Function.update s.left task chunks}

def step (s : Capture) : Label → Option Capture
  | .log task nowMs fmt formatted =>
    if task = 0 ∨ s.left task ≠ [] then none
    else
      let s := match formatted with
        | none => s
        | some text => {s with ended := Function.update s.ended task (endsLine text)}
      some (ingestNext task nowMs (captureVprintf fmt formatted) s)
  | .ingest task nowMs =>
    if task = 0 ∨ s.left task = [] then none else some (ingestNext task nowMs (s.left task) s)

def capture : Machine Capture Label :=
  ⟨fun s => FreshRing s.ram ∧ s.left = (fun _ => []) ∧ s.ended = (fun _ => false),step⟩

/- The newline of a text is read off the text itself, or the format has it too, or nothing
can be seen of what the line has in the buffer. -/
def NewlineKept (ram : Ram) (task : Nat) (fmt text : List UInt8) : Prop :=
  text.length < formatBuffer ∨ fmt.getLast? = some 0x0a ∨
    cleanChars 0 (trailing [] (text.take (formatBuffer - 1))) = [] ∧
      (0x0a ∈ text.take (formatBuffer - 1) ∨ heldBytes (heldText task ram) = [])

def Ends (s : Capture) : Label → Prop
  | .log task _ fmt (some text) => endsLine text = true → NewlineKept s.ram task fmt text
  | _ => True

/- What a call makes of its text is what it makes on a ring where the task holds nothing. -/
def BeginsOwn (call : Said) (ram : Ram) : Prop :=
  linesFor call.task (owned call ram).2 = (assemble call.nowMs call.text [] none).2 ∧
    heldBytes (heldText call.task (owned call ram).1) = heldBytes (assemble call.nowMs call.text [] none).1

variable {nowMs : UInt32} {text segment : List UInt8} {held : Option Text}

theorem assembleEnded (ends : endsLine text = true) : (assemble nowMs text segment held).1 = none := by
  unfold endsLine at ends
  induction text generalizing segment held with
  | nil => exact absurd ends (by decide)
  | cons b text ih =>
    unfold assemble
    by_cases last : text = []
    · subst last
      have newline : b = 0x0a := Option.some.inj (beq_iff_eq.mp ends)
      rw [if_neg (not_not_intro newline)]
      split <;> rfl
    · rw [List.getLast?_cons_of_ne_nil last] at ends
      split
      · exact ih ends
      · split
        · exact ih ends
        · exact ih ends

theorem heldBlank (blank : heldBytes held = []) : held.getD .empty = .empty := emptyText blank

theorem assembleBlank : heldBytes (assemble nowMs text segment held).1 = [] ↔
    cleanChars 0 (trailing segment text) = [] ∧ (0x0a ∈ text ∨ heldBytes held = []) := by
  induction text generalizing segment held with
  | nil =>
    unfold assemble trailing
    rw [or_iff_right List.not_mem_nil]
    split
    · rename_i none
      rw [none]
      exact (and_iff_right rfl).symm
    · change (appendClean (held.getD .empty) segment).bytes = [] ↔ _
      rw [appendCleanChars, List.append_eq_nil_iff, and_comm]
      refine and_congr_left fun blank => ?_
      have room : textRoom - (held.getD .empty).bytes.length = textRoom := by
        rw [show (held.getD .empty).bytes = [] from blank]
        rfl
      rw [room, ← encodeNil, encodeSame, fittingNone, headFits]
  | cons b text ih =>
    unfold assemble trailing
    split
    · rename_i plain
      rw [ih, List.mem_cons, or_iff_right (Ne.symm plain)]
    · rename_i newline
      have here : 0x0a ∈ b :: text := not_not.mp newline ▸ List.mem_cons_self
      have rest := @ih [] none
      rw [and_iff_left (.inr rfl)] at rest
      rw [and_iff_left (.inl here)]
      split
      · exact rest
      · exact rest

/- A task that holds nothing that can be seen goes on as if it held nothing. -/
theorem assembleFresh (blank : heldBytes held = []) :
    (assemble nowMs text segment held).2 = (assemble nowMs text segment none).2 ∧
      heldBytes (assemble nowMs text segment held).1 = heldBytes (assemble nowMs text segment none).1 := by
  induction text generalizing segment with
  | nil =>
    unfold assemble
    split
    · exact ⟨rfl,blank⟩
    · rw [heldBlank blank]
      exact ⟨rfl,rfl⟩
  | cons b text ih =>
    unfold assemble
    split
    · exact ih
    · have quiet : held.any (fun t => t.bytes ≠ []) = (none : Option Text).any (fun t => t.bytes ≠ []) := by
        cases held with
        | none => rfl
        | some t => exact decide_eq_false (not_not_intro blank)
      rw [quiet, heldBlank blank]
      exact ⟨rfl,rfl⟩

theorem captureCases (fmt text : List UInt8) : ∃ chunk chunks, captureVprintf fmt (some text) = chunk :: chunks ∧
    (text.length < formatBuffer ∧ chunk = text ∧ chunks = [] ∨
      ¬ text.length < formatBuffer ∧ chunk = text.take (formatBuffer - 1) ∧
        (fmt.getLast? = some 0x0a ∧ chunks = [[0x0a]] ∨ fmt.getLast? ≠ some 0x0a ∧ chunks = [])) := by
  unfold captureVprintf
  dsimp only
  split
  · rename_i short
    exact ⟨text,[],rfl,.inl ⟨short,rfl,rfl⟩⟩
  · rename_i long
    split
    · rename_i newline
      exact ⟨_,_,rfl,.inr ⟨long,rfl,.inl ⟨newline,rfl⟩⟩⟩
    · rename_i plain
      exact ⟨_,_,rfl,.inr ⟨long,rfl,.inr ⟨plain,rfl⟩⟩⟩

/- A step changes nothing, or it ingests a chunk on behalf of its task. -/
inductive Stepped (s : Capture) : Label → Capture → Prop where
  | failed (task : Nat) (nowMs : UInt32) (fmt : List UInt8) : Stepped s (.log task nowMs fmt none) s
  | log (task : Nat) (nowMs : UInt32) (fmt text chunk : List UInt8) (chunks : List (List UInt8)) (handle : task ≠ 0)
      (captured : captureVprintf fmt (some text) = chunk :: chunks) :
      Stepped s (.log task nowMs fmt (some text))
        ⟨(owned ⟨task,nowMs,chunk⟩ s.ram).1,Function.update s.left task chunks,
          Function.update s.ended task (endsLine text)⟩
  | ingest (task : Nat) (nowMs : UInt32) (chunk : List UInt8) (chunks : List (List UInt8)) (handle : task ≠ 0)
      (left : s.left task = chunk :: chunks) :
      Stepped s (.ingest task nowMs)
        ⟨(owned ⟨task,nowMs,chunk⟩ s.ram).1,Function.update s.left task chunks,s.ended⟩

theorem stepped {s t : Capture} {l : Label} (taken : step s l = some t) : Stepped s l t := by
  cases l with
  | log task nowMs fmt formatted =>
    obtain ⟨guard,same⟩ := Option.ite_none_left_eq_some.mp taken
    cases formatted with
    | none =>
      cases Option.some.inj same
      exact .failed task nowMs fmt
    | some text =>
      obtain ⟨chunk,chunks,captured,_⟩ := captureCases fmt text
      dsimp only at same
      rw [captured] at same
      cases Option.some.inj same
      exact .log task nowMs fmt text chunk chunks (not_or.mp guard).1 captured
  | ingest task nowMs =>
    obtain ⟨guard,same⟩ := Option.ite_none_left_eq_some.mp taken
    obtain ⟨handle,more⟩ := not_or.mp guard
    obtain ⟨chunk,chunks,left⟩ := List.exists_cons_of_ne_nil more
    rw [left] at same
    cases Option.some.inj same
    exact .ingest task nowMs chunk chunks handle left

/- Of a call at work nothing is left but a newline. -/
structure Sound (s : Capture) : Prop where
  own : Own s.ram
  cur : s.ram.cur ≠ none
  left : ∀ task, s.left task = [] ∨ s.left task = [[0x0a]]

theorem soundOwned {s : Capture} (sound : Sound s) {task : Nat} {chunk : List UInt8} {chunks : List (List UInt8)}
    {ended : Nat → Bool} (handle : task ≠ 0) (left : chunks = [] ∨ chunks = [[0x0a]]) :
    Sound ⟨(owned ⟨task,nowMs,chunk⟩ s.ram).1,Function.update s.left task chunks,ended⟩ := by
  have effect := @ownedEffect s.ram ⟨task,nowMs,chunk⟩ sound.own handle sound.cur
  refine ⟨effect.own,effect.cur ▸ sound.cur,fun t => ?_⟩
  dsimp only
  by_cases mine : t = task
  · subst mine
    rw [Function.update_self]
    exact left
  · rw [Function.update_of_ne mine]
    exact sound.left t

theorem soundStep {s t : Capture} {l : Label} (sound : Sound s) (taken : step s l = some t) : Sound t := by
  cases stepped taken with
  | failed task nowMs fmt => exact sound
  | log task nowMs fmt text chunk chunks handle captured =>
    refine soundOwned sound handle ?_
    obtain ⟨_,_,also,which⟩ := captureCases fmt text
    cases captured.symm.trans also
    rcases which with ⟨_,_,none⟩ | ⟨_,_,⟨_,newline⟩ | ⟨_,none⟩⟩
    · exact .inl none
    · exact .inr newline
    · exact .inl none
  | ingest task nowMs chunk chunks handle left =>
    refine soundOwned sound handle ?_
    rcases sound.left task with none | newline
    · exact absurd (left.symm.trans none) (List.cons_ne_nil _ _)
    · cases left.symm.trans newline
      exact .inl rfl

theorem reachedSound {s : Capture} (reached : capture.Reachable s) : Sound s := by
  refine reachableInvariant Sound ?_ (fun s l t => soundStep) reached
  rintro s ⟨fresh,none,_⟩
  exact ⟨(freshOwn fresh).1,fresh.cur,fun task => .inl (by rw [none])⟩

def EndedBlank (s : Capture) : Prop :=
  ∀ task, task ≠ 0 → s.ended task = true → s.left task = [] → heldBytes (heldText task s.ram) = []

theorem othersBlank {call : Said} {ram : Ram} {task : Nat} (effect : Effect call ram (owned call ram))
    (handle : task ≠ 0) (other : task ≠ call.task) (blank : heldBytes (heldText task ram) = []) :
    heldBytes (heldText task (owned call ram).1) = [] := by
  by_cases taken : ∃ k, takesOver call ram = some k ∧ (ram.pending k).task = task
  · obtain ⟨k,taken,rfl⟩ := taken
    rw [(effect.taken k taken).2.2.2.1]
    rfl
  · rw [(effect.kept task handle other (fun k same here => taken ⟨k,same,here⟩)).1]
    exact blank

theorem blankOwned {s : Capture} (sound : Sound s) (blank : EndedBlank s) {task : Nat} {chunk : List UInt8}
    {chunks : List (List UInt8)} {ended : Nat → Bool} (handle : task ≠ 0) (same : ∀ t, t ≠ task → ended t = s.ended t)
    (mine : ended task = true → chunks = [] →
      heldBytes (assemble nowMs chunk [] (heldText task s.ram)).1 = []) :
    EndedBlank ⟨(owned ⟨task,nowMs,chunk⟩ s.ram).1,Function.update s.left task chunks,ended⟩ := by
  have effect := @ownedEffect s.ram ⟨task,nowMs,chunk⟩ sound.own handle sound.cur
  intro t some ends done
  dsimp only at ends done ⊢
  by_cases own : t = task
  · subst own
    rw [Function.update_self] at done
    rw [effect.held]
    exact mine ends done
  · rw [Function.update_of_ne own] at done
    exact othersBlank effect some own (blank t some (same t own ▸ ends) done)

theorem blankStep {s t : Capture} {l : Label} (sound : Sound s) (blank : EndedBlank s) (condition : Ends s l)
    (taken : step s l = some t) : EndedBlank t := by
  cases stepped taken with
  | failed task nowMs fmt => exact blank
  | log task nowMs fmt text chunk chunks handle captured =>
    refine blankOwned sound blank handle (fun t other => Function.update_of_ne other ..) (fun ends none => ?_)
    rw [Function.update_self] at ends
    obtain ⟨_,_,also,which⟩ := captureCases fmt text
    cases captured.symm.trans also
    rcases which with ⟨_,whole,_⟩ | ⟨long,cut,⟨_,newline⟩ | ⟨plain,_⟩⟩
    · rw [whole, assembleEnded ends]
      rfl
    · exact absurd (newline.symm.trans none) (List.cons_ne_nil _ _)
    · rw [cut]
      exact assembleBlank.mpr (((condition ends).resolve_left long).resolve_left plain)
  | ingest task nowMs chunk chunks handle left =>
    refine blankOwned sound blank handle (fun _ _ => rfl) (fun _ _ => ?_)
    rcases sound.left task with none | newline
    · exact absurd (left.symm.trans none) (List.cons_ne_nil _ _)
    · cases left.symm.trans newline
      rw [assembleEnded rfl]
      rfl

theorem underBlank {s : Capture} (reached : capture.Under Ends s) : EndedBlank s := by
  refine underInvariantWith Sound EndedBlank (fun s reached => reachedSound (underReachable reached)) ?_
    (fun s l t sound blank condition taken => blankStep sound blank condition taken) reached
  rintro s ⟨_,_,none⟩ task _ ended
  rw [none] at ended
  exact absurd ended Bool.false_ne_true

theorem seenNotOwn {s : Capture} {task : Nat} (sound : Sound s) (handle : task ≠ 0)
    (seen : heldBytes (heldText task s.ram) ≠ []) : ¬ BeginsOwn ⟨task,nowMs,[0x0a]⟩ s.ram := by
  rintro ⟨lines,_⟩
  have effect := @ownedEffect s.ram ⟨task,nowMs,[0x0a]⟩ sound.own handle sound.cur
  have none := effect.lines.symm.trans lines
  dsimp only at none
  cases held : heldText task s.ram with
  | none =>
    rw [held] at seen
    exact seen rfl
  | some text =>
    rw [held] at seen none
    have speaks : ([] : List UInt8) ≠ [] ∨ (some text).any (fun t => t.bytes ≠ []) = true :=
      .inr (decide_eq_true seen)
    rw [assemble, if_neg (not_not_intro rfl), if_pos speaks] at none
    exact List.cons_ne_nil _ _ none

/- In every run whose texts keep their newline, the text of a call that follows one begins a
line of its own. A text that loses its newline leaves its line open, with text to be seen, and
the next newline does not begin one. -/
theorem newlineEnds (s : Capture) (task : Nat) :
    (capture.Under Ends s → task ≠ 0 → s.ended task = true → s.left task = [] →
      ∀ nowMs chunk, BeginsOwn ⟨task,nowMs,chunk⟩ s.ram) ∧
    (capture.Reachable s → ∀ t nowMs fmt text, endsLine text = true → ¬ NewlineKept s.ram task fmt text →
      step s (.log task nowMs fmt (some text)) = some t →
      t.ended task = true ∧ t.left task = [] ∧ heldBytes (heldText task t.ram) ≠ [] ∧
        ∀ nowMs, ¬ BeginsOwn ⟨task,nowMs,[0x0a]⟩ t.ram) := by
  constructor
  · intro reached handle ended done nowMs chunk
    have sound := reachedSound (underReachable reached)
    have effect := @ownedEffect s.ram ⟨task,nowMs,chunk⟩ sound.own handle sound.cur
    obtain ⟨lines,held⟩ := @assembleFresh nowMs chunk [] _ (underBlank reached task handle ended done)
    exact ⟨effect.lines.trans lines,(congrArg heldBytes effect.held).trans held⟩
  · intro reached t nowMs fmt text ends lost taken
    have sound := reachedSound reached
    cases stepped taken with
    | log _ _ _ _ chunk chunks handle captured =>
      obtain ⟨long,lost⟩ := not_or.mp lost
      obtain ⟨plain,lost⟩ := not_or.mp lost
      obtain ⟨_,_,also,which⟩ := captureCases fmt text
      cases captured.symm.trans also
      have effect := @ownedEffect s.ram ⟨task,nowMs,chunk⟩ sound.own handle sound.cur
      dsimp only
      rcases which with ⟨short,_⟩ | ⟨_,cut,⟨newline,_⟩ | ⟨_,none⟩⟩
      · exact absurd short long
      · exact absurd newline plain
      · have seen : heldBytes (heldText task (owned ⟨task,nowMs,chunk⟩ s.ram).1) ≠ [] := by
          rw [effect.held]
          dsimp only
          rw [cut]
          exact fun blank => lost (assembleBlank.mp blank)
        refine ⟨by rw [Function.update_self]; exact ends,by rw [Function.update_self]; exact none,seen,fun _ => ?_⟩
        exact seenNotOwn (soundStep sound taken) handle seen

instance (ram : Ram) (task : Nat) (fmt text : List UInt8) : Decidable (NewlineKept ram task fmt text) := by
  unfold NewlineKept
  infer_instance

instance (s : Capture) : ∀ l, Decidable (Ends s l)
  | .log task _ fmt (some text) => inferInstanceAs (Decidable (endsLine text = true → NewlineKept s.ram task fmt text))
  | .log _ _ _ none => inferInstanceAs (Decidable True)
  | .ingest _ _ => inferInstanceAs (Decidable True)

def startedCapture : Capture := ⟨startedRam,fun _ => [],fun _ => false⟩

theorem startedStart : capture.start startedCapture := ⟨startedFresh,rfl,rfl⟩

/- The format `"%s\n"` with 200 letters: the newline comes with a second `ingest`. -/
def longLine : List Label :=
  [.log 1 0 [0x25,0x73,0x0a] (some (List.replicate 200 0x61 ++ [0x0a])),.ingest 1 1]

theorem newlineEndsLong : ∃ s, capture.Under Ends s ∧ s.ended 1 = true ∧ BeginsOwn ⟨1,2,[0x62,0x0a]⟩ s.ram := by
  obtain ⟨s,reached,ends⟩ := @underEnds _ _ capture Ends startedCapture longLine
    (fun s => s.ended 1 && s.left 1 == []) startedStart (by decide +kernel) (by decide +kernel)
  obtain ⟨ended,left⟩ := Bool.and_eq_true_iff.mp ends
  exact ⟨s,reached,ended,(newlineEnds s 1).1 reached (by decide) ended (beq_iff_eq.mp left) 2 [0x62,0x0a]⟩

/- The format `"%s"` with 191 letters and a newline: the next line is swallowed. -/
theorem newlineLost : ¬ ∀ s, capture.Reachable s → ∀ task, task ≠ 0 → s.ended task = true → s.left task = [] →
    ∀ nowMs chunk, BeginsOwn ⟨task,nowMs,chunk⟩ s.ram := by
  intro all
  obtain ⟨s,reached,ends⟩ := @runEnds _ _ capture startedCapture
    [.log 1 0 [0x25,0x73] (some (List.replicate 191 0x61 ++ [0x0a]))]
    (fun s => (s.ended 1 && s.left 1 == []) &&
      (linesFor 1 (owned ⟨1,2,[0x62,0x0a]⟩ s.ram).2).map (fun line => line.2.bytes) == [List.replicate 179 0x61])
    startedStart (by decide +kernel)
  simp only [Bool.and_eq_true,beq_iff_eq] at ends
  obtain ⟨⟨ended,left⟩,swallowed⟩ := ends
  have own := (all s reached 1 (by decide) ended left 2 [0x62,0x0a]).1
  rw [own] at swallowed
  exact absurd (congrArg (fun lines => lines.map List.length) swallowed) (by decide +kernel)

end EpskcCommissioner.LogCapture

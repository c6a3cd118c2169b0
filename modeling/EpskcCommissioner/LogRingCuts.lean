import EpskcCommissioner.LogChars
import EpskcCommissioner.LogRingOwners

/-! Console text in several calls. A line is cleaned part by part, and a part does not know
whether one before it was cut off: the lines are those of the text in one call exactly where
nothing has room behind a cut. -/
namespace EpskcCommissioner.LogRingCuts
open LogText LogRing LogRingDevice LogRingTasks LogRingOwners LogClean LogJson LogChars Utf8 Fitting

def tailLen (c : UInt8) (rest : List UInt8) : Nat :=
  if c = 0x1b then escapeLen rest else utf8Len (c :: rest) - 1

/- No escape sequence and no character has a part on each side of the cut; `skip` bytes
belong to what has begun. -/
def Apart : (skip : Nat) → List UInt8 → List UInt8 → Prop
  | 0, [], _ => True
  | _ + 1, [], after => after = []
  | skip + 1, _ :: rest, after => Apart skip rest after
  | 0, c :: rest, after => Apart (tailLen c (rest ++ after)) rest after

theorem apartEnds {skip : Nat} {xs ys : List UInt8} (apart : Apart skip xs ys) (long : xs.length < skip) : ys = [] := by
  induction xs generalizing skip with
  | nil =>
    cases skip with
    | zero => exact absurd long (Nat.lt_irrefl 0)
    | succ skip => exact apart
  | cons c xs ih =>
    cases skip with
    | zero => exact absurd long (Nat.not_lt_zero _)
    | succ skip => exact ih apart (Nat.lt_of_succ_lt_succ long)

theorem escapeLenFront {rest after : List UInt8} (inside : escapeLen (rest ++ after) ≤ rest.length) :
    escapeLen rest = escapeLen (rest ++ after) := by
  cases rest with
  | nil => exact (Nat.le_zero.mp inside).symm
  | cons c rest =>
    by_cases bracket : c = 0x5b
    · subst bracket
      have front := @List.takeWhile_append _ (fun b : UInt8 => b < 0x40 || b > 0x7e) rest after
      simp only [List.cons_append,escapeLen,List.length_cons] at inside ⊢
      split at front
      · rename_i all
        rw [front, List.length_append] at inside
        omega
      · rw [front]
    · have none : ∀ rest : List UInt8, escapeLen (c :: rest) = 0 := by
        intro rest
        unfold escapeLen
        split
        · rename_i same
          exact absurd (List.cons.inj same).1 bracket
        · rfl
      rw [List.cons_append, none, none]

theorem utf8LenFront {c : UInt8} {rest after : List UInt8}
    (inside : utf8Len (c :: (rest ++ after)) ≤ rest.length + 1) :
    utf8Len (c :: rest) = utf8Len (c :: (rest ++ after)) := by
  unfold utf8Len at inside ⊢
  dsimp only at inside ⊢
  by_cases lead : utf8Lead c = 0
  · rw [lead]
    rfl
  · have two : 2 ≤ utf8Lead c := by
      rcases leadRange lead with ⟨two,_⟩ | ⟨three,_⟩ | ⟨four,_⟩ <;> omega
    by_cases short : rest.length + 1 < utf8Lead c
    · rw [if_pos (Bool.or_eq_true_iff.mpr (.inr (decide_eq_true short)))]
      split at inside
      · rename_i none
        rw [if_pos none]
      · split at inside
        · rename_i none broken
          rw [if_neg none, if_pos broken]
        · split at inside
          · rename_i none broken wide
            rw [if_neg none, if_neg broken, if_pos wide]
          · omega
    · have front : (rest ++ after).take (utf8Lead c - 1) = rest.take (utf8Lead c - 1) :=
        List.take_append_of_le_length (by omega)
      obtain ⟨d,more,rfl⟩ := List.exists_cons_of_length_pos (show 0 < rest.length by omega)
      have none : ¬ (utf8Lead c = 0 || (d :: more).length + 1 < utf8Lead c) = true := by
        simp only [Bool.or_eq_true,decide_eq_true_eq,not_or]
        exact ⟨lead,short⟩
      have also : ¬ (utf8Lead c = 0 || (d :: more ++ after).length + 1 < utf8Lead c) = true := by
        rw [List.length_append]
        simp only [Bool.or_eq_true,decide_eq_true_eq,not_or]
        exact ⟨lead,by omega⟩
      rw [if_neg none, if_neg also, front]
      rfl

theorem tailLenFront {c : UInt8} {rest after : List UInt8} (inside : tailLen c (rest ++ after) ≤ rest.length) :
    tailLen c rest = tailLen c (rest ++ after) := by
  unfold tailLen at inside ⊢
  by_cases escape : c = 0x1b
  · rw [if_pos escape] at inside
    rw [if_pos escape, if_pos escape]
    exact escapeLenFront inside
  · rw [if_neg escape] at inside
    rw [if_neg escape, if_neg escape, utf8LenFront (Nat.le_add_of_sub_le inside)]

theorem apartFront {skip : Nat} {xs ys zs : List UInt8} (apart : Apart skip xs (ys ++ zs)) : Apart skip xs ys := by
  induction xs generalizing skip with
  | nil =>
    cases skip with
    | zero => trivial
    | succ skip => exact (List.append_eq_nil_iff.mp apart).1
  | cons c xs ih =>
    cases skip with
    | succ skip => exact ih apart
    | zero =>
      unfold Apart at apart ⊢
      by_cases inside : tailLen c (xs ++ (ys ++ zs)) ≤ xs.length
      · rw [← List.append_assoc] at inside apart
        have same : tailLen c (xs ++ ys) = tailLen c (xs ++ ys ++ zs) :=
          tailLenFront (inside.trans (by rw [List.length_append]; exact Nat.le_add_right _ _))
        rw [same]
        rw [List.append_assoc] at apart
        rw [List.append_assoc]
        exact ih apart
      · have none := List.append_eq_nil_iff.mp (apartEnds apart (Nat.not_le.mp inside))
        rw [none.1, none.2] at apart
        rw [none.1]
        exact apart

/- What `append_clean` makes of a byte and what belongs to it. -/
def shownAt (c : UInt8) (rest : List UInt8) : List Char :=
  if c = 0x1b ∨ c = 0x0d then [] else if c < 0x20 || c == 0x7f then [' '] else charAt c rest

theorem cleanCharsNext (c : UInt8) (rest : List UInt8) :
    cleanChars 0 (c :: rest) = shownAt c rest ++ cleanChars (tailLen c rest) rest := by
  unfold shownAt tailLen
  rw [cleanChars]
  by_cases escape : c = 0x1b
  · rw [if_pos escape, if_pos escape, if_pos (.inl escape)]
    rfl
  · rw [if_neg escape, if_neg escape]
    by_cases cr : c = 0x0d
    · rw [if_pos cr, if_pos (.inr cr), asciiLen rest (cr ▸ by decide)]
      rfl
    · rw [if_neg cr, if_neg (not_or.mpr ⟨escape,cr⟩)]
      by_cases control : (c < 0x20 || c == 0x7f) = true
      · have ascii : c < 0x80 := by
          rcases Bool.or_eq_true_iff.mp control with low | delete
          · exact UInt8.lt_trans (of_decide_eq_true low) (by decide)
          · rw [beq_iff_eq.mp delete]
            decide
        rw [if_pos control, if_pos control, asciiLen rest ascii]
        rfl
      · rw [if_neg control, if_neg control]

theorem shownAtFront {c : UInt8} {rest after : List UInt8} (inside : tailLen c (rest ++ after) ≤ rest.length) :
    shownAt c rest = shownAt c (rest ++ after) := by
  unfold tailLen at inside
  unfold shownAt charAt
  by_cases escape : c = 0x1b
  · rw [if_pos (.inl escape), if_pos (.inl escape)]
  · rw [if_neg escape] at inside
    have bound : utf8Len (c :: (rest ++ after)) ≤ rest.length + 1 := Nat.le_add_of_sub_le inside
    have front : (c :: (rest ++ after)).take (utf8Len (c :: (rest ++ after))) =
        (c :: rest).take (utf8Len (c :: (rest ++ after))) := by
      rw [← List.cons_append]
      exact List.take_append_of_le_length bound
    dsimp only
    rw [utf8LenFront bound, front]

theorem cleanApart {skip : Nat} {xs ys : List UInt8} (apart : Apart skip xs ys) :
    cleanChars skip (xs ++ ys) = cleanChars skip xs ++ cleanChars 0 ys := by
  induction xs generalizing skip with
  | nil =>
    cases skip with
    | zero => rfl
    | succ skip =>
      rw [show ys = [] from apart]
      rfl
  | cons c xs ih =>
    cases skip with
    | succ skip => exact ih apart
    | zero =>
      unfold Apart at apart
      by_cases inside : tailLen c (xs ++ ys) ≤ xs.length
      · rw [List.cons_append, cleanCharsNext, cleanCharsNext, ih apart, shownAtFront inside, tailLenFront inside,
          List.append_assoc]
      · rw [apartEnds apart (Nat.not_le.mp inside), List.append_nil]
        exact (List.append_nil _).symm

def completed : (segment : List UInt8) → List UInt8 → List (List UInt8)
  | _, [] => []
  | segment, b :: rest => if b ≠ 0x0a then completed (segment ++ [b]) rest else segment :: completed [] rest

def callParts : (parts : List (List UInt8)) → (segment : List UInt8) → List UInt8 →
    List (List UInt8) × List (List (List UInt8))
  | parts, segment, [] => if segment = [] then (parts,[]) else (parts ++ [segment],[])
  | parts, segment, b :: rest =>
    if b ≠ 0x0a then callParts parts (segment ++ [b]) rest
    else
      let (begun,lines) := callParts [] [] rest
      (begun,(parts ++ [segment]) :: lines)

def lineParts : (parts : List (List UInt8)) → List (List UInt8) → List (List (List UInt8))
  | _, [] => []
  | parts, chunk :: chunks =>
    let (begun,lines) := callParts parts [] chunk
    lines ++ lineParts begun chunks

def beforeNewline (text : List UInt8) : List UInt8 := text.takeWhile (fun b => b != 0x0a)

/- No cut lies inside an escape sequence or a character. -/
def WholeCuts : (before : List UInt8) → List (List UInt8) → Prop
  | _, [] => True
  | before, chunk :: chunks => Apart 0 before (beforeNewline (chunk ++ chunks.flatten)) ∧
    WholeCuts (trailing before chunk) chunks

theorem completedAppend (segment xs ys : List UInt8) :
    completed segment (xs ++ ys) = completed segment xs ++ completed (trailing segment xs) ys := by
  induction xs generalizing segment with
  | nil => rfl
  | cons b xs ih =>
    rw [List.cons_append, completed, completed, trailing]
    split
    · exact ih _
    · exact congrArg _ (ih _)

theorem callPartsFlatten (parts : List (List UInt8)) (segment text : List UInt8) :
    (callParts parts segment text).1.flatten = trailing (parts.flatten ++ segment) text ∧
      (callParts parts segment text).2.map List.flatten = completed (parts.flatten ++ segment) text := by
  induction text generalizing parts segment with
  | nil =>
    unfold callParts
    split
    · rename_i none
      rw [none, List.append_nil]
      exact ⟨rfl,rfl⟩
    · refine ⟨?_,rfl⟩
      rw [List.flatten_append, List.flatten_singleton]
      rfl
  | cons b text ih =>
    rw [callParts, trailing, completed]
    split
    · obtain ⟨after,lines⟩ := ih parts (segment ++ [b])
      rw [← List.append_assoc] at after lines
      exact ⟨after,lines⟩
    · obtain ⟨after,lines⟩ := ih [] []
      refine ⟨after,List.cons_eq_cons.mpr ⟨?_,lines⟩⟩
      rw [List.flatten_append, List.flatten_singleton]

theorem linePartsFlatten (parts chunks : List (List UInt8)) :
    (lineParts parts chunks).map List.flatten = completed parts.flatten chunks.flatten := by
  induction chunks generalizing parts with
  | nil => rfl
  | cons chunk chunks ih =>
    obtain ⟨after,lines⟩ := callPartsFlatten parts [] chunk
    rw [List.append_nil] at after lines
    rw [lineParts, List.flatten_cons, completedAppend, List.map_append, lines, ih, after]

def PartsApart (parts : List (List UInt8)) : Prop :=
  cleanChars 0 parts.flatten = (parts.map (cleanChars 0)).flatten

theorem partsApartNext {parts : List (List UInt8)} {segment : List UInt8} (agrees : PartsApart parts)
    (apart : Apart 0 parts.flatten segment) : PartsApart (parts ++ [segment]) := by
  unfold PartsApart at agrees ⊢
  rw [List.flatten_append, List.flatten_singleton, cleanApart apart, agrees, List.map_append, List.flatten_append,
    List.map_singleton, List.flatten_singleton]

theorem callPartsApart {parts : List (List UInt8)} {segment text : List UInt8} (agrees : PartsApart parts)
    (apart : Apart 0 parts.flatten (segment ++ beforeNewline text)) :
    PartsApart (callParts parts segment text).1 ∧ ∀ line ∈ (callParts parts segment text).2, PartsApart line := by
  induction text generalizing parts segment with
  | nil =>
    unfold callParts
    split
    · exact ⟨agrees,List.forall_mem_nil _⟩
    · exact ⟨partsApartNext agrees (apartFront apart),List.forall_mem_nil _⟩
  | cons b text ih =>
    rw [callParts]
    split
    · rename_i plain
      have next : beforeNewline (b :: text) = b :: beforeNewline text :=
        List.takeWhile_cons_of_pos (bne_iff_ne.mpr plain)
      rw [next, List.append_cons] at apart
      exact ih agrees apart
    · obtain ⟨after,lines⟩ := @ih [] [] rfl trivial
      exact ⟨after,List.forall_mem_cons.mpr ⟨partsApartNext agrees (apartFront apart),lines⟩⟩

theorem linePartsApart {parts chunks : List (List UInt8)} (agrees : PartsApart parts)
    (cuts : WholeCuts parts.flatten chunks) : ∀ line ∈ lineParts parts chunks, PartsApart line := by
  induction chunks generalizing parts with
  | nil => exact List.forall_mem_nil _
  | cons chunk chunks ih =>
    obtain ⟨apart,cuts⟩ := cuts
    have front : ∃ more, beforeNewline (chunk ++ chunks.flatten) = beforeNewline chunk ++ more := by
      unfold beforeNewline
      rw [List.takeWhile_append]
      split
      · rename_i all
        rw [(List.takeWhile_prefix _).eq_of_length all]
        exact ⟨_,rfl⟩
      · exact ⟨[],(List.append_nil _).symm⟩
    obtain ⟨more,front⟩ := front
    rw [front] at apart
    obtain ⟨after,lines⟩ := @callPartsApart parts [] chunk agrees (apartFront apart)
    have begun := (callPartsFlatten parts [] chunk).1
    rw [List.append_nil] at begun
    rw [← begun] at cuts
    exact List.forall_mem_append.mpr ⟨lines,ih after cuts⟩

/- The text of a line that comes in parts: each takes what the parts before it have left. -/
def partsText (parts : List (List UInt8)) : List UInt8 :=
  encode (pieced charSize textRoom (parts.map (cleanChars 0)))

/- The longest front of the cleaned line, in whole characters, that a slot has room for. -/
def trimmed (line : List UInt8) : List UInt8 := encode (fitting charSize textRoom (cleanChars 0 line))

/- What no longer fits in is not followed by anything that does. -/
def LineFits (parts : List (List UInt8)) : Prop := Unbroken charSize textRoom (parts.map (cleanChars 0))

theorem encodeSame {cs ds : List Char} : encode cs = encode ds ↔ cs = ds := by
  refine ⟨fun same => ?_,congrArg encode⟩
  have decoded := decodeEncode cs
  rw [same, decodeEncode ds] at decoded
  exact (Option.some.inj decoded).symm

theorem partsTrimmed {parts : List (List UInt8)} (agrees : PartsApart parts) :
    partsText parts = trimmed parts.flatten ↔ LineFits parts := by
  unfold partsText trimmed LineFits
  rw [agrees, encodeSame]
  exact piecedFitting

theorem headFits {cs : List Char} : (∀ c ∈ cs.head?, textRoom < charSize c) ↔ cs = [] := by
  cases cs with
  | nil => exact iff_of_true (fun c mem => absurd mem (Option.not_mem_none c)) rfl
  | cons c cs =>
    refine iff_of_false (fun large => ?_) (List.cons_ne_nil _ _)
    have small : charSize c ≤ 4 := (String.length_utf8EncodeChar c).trans_le (Char.utf8Size_le_four c)
    exact absurd (large c rfl) (Nat.not_lt.mpr (small.trans (by decide)))

theorem partsBlank {parts : List (List UInt8)} (agrees : PartsApart parts) :
    partsText parts = [] ↔ trimmed parts.flatten = [] := by
  unfold partsText trimmed
  rw [agrees, ← encodeNil, encodeSame, encodeSame, piecedNone, fittingNone, headFits, List.flatten_eq_nil_iff]
  exact forall₂_congr fun _ _ => headFits

def heldBytes (held : Option Text) : List UInt8 := (held.getD .empty).bytes

theorem appendParts {held : Option Text} {parts : List (List UInt8)} (same : heldBytes held = partsText parts)
    (segment : List UInt8) : (appendClean (held.getD .empty) segment).bytes = partsText (parts ++ [segment]) := by
  have bytes : (held.getD .empty).bytes = partsText parts := same
  unfold partsText at bytes ⊢
  rw [appendCleanChars, bytes, encodeTotal, List.map_append, List.map_singleton, piecedAppend, encodeAppend]

theorem partsNothing {parts : List (List UInt8)} : partsText (parts ++ [[]]) = partsText parts := by
  unfold partsText
  rw [List.map_append, List.map_singleton, piecedAppend]
  exact congrArg encode (List.append_nil _)

def shownTexts (lines : List (UInt32 × Text)) : List (List UInt8) :=
  (lines.map (fun line => line.2.bytes)).filter (fun text => text ≠ [])

def shownParts (lines : List (List (List UInt8))) : List (List UInt8) :=
  (lines.map partsText).filter (fun text => text ≠ [])

theorem assembleParts {nowMs : UInt32} {text segment : List UInt8} {held : Option Text} {parts : List (List UInt8)}
    (same : heldBytes held = partsText parts) :
    heldBytes (assemble nowMs text segment held).1 = partsText (callParts parts segment text).1 ∧
      shownTexts (assemble nowMs text segment held).2 = shownParts (callParts parts segment text).2 := by
  induction text generalizing segment held parts with
  | nil =>
    unfold assemble callParts
    split
    · exact ⟨same,rfl⟩
    · exact ⟨appendParts same segment,rfl⟩
  | cons b text ih =>
    unfold assemble callParts
    split
    · exact ih same
    · obtain ⟨after,lines⟩ := @ih [] none [] rfl
      split
      · refine ⟨after,?_⟩
        unfold shownTexts shownParts at lines ⊢
        dsimp only
        rw [List.map_cons, List.map_cons, appendParts same, List.filter_cons, List.filter_cons, lines]
      · rename_i blank
        refine ⟨after,?_⟩
        obtain ⟨none,quiet⟩ := not_or.mp blank
        have nothing : partsText parts = [] := by
          rw [← same]
          cases held with
          | none => rfl
          | some t => exact not_not.mp (fun more => quiet (decide_eq_true more))
        rw [lines]
        unfold shownParts
        dsimp only
        rw [List.map_cons, not_not.mp none, partsNothing, nothing]
        rfl

def chunksOf (task : Nat) (calls : List Said) : List (List UInt8) :=
  (calls.filter (fun call => call.task == task)).map Said.text

theorem aloneParts {task : Nat} {calls : List Said} {held : Option Text} {parts : List (List UInt8)}
    (same : heldBytes held = partsText parts) :
    shownTexts (alone task calls held) = shownParts (lineParts parts (chunksOf task calls)) := by
  induction calls generalizing held parts with
  | nil => rfl
  | cons call calls ih =>
    unfold alone chunksOf
    rw [List.filter_cons]
    by_cases mine : call.task = task
    · obtain ⟨after,lines⟩ := @assembleParts call.nowMs call.text [] held parts same
      rw [if_pos mine, if_pos (beq_iff_eq.mpr mine), List.map_cons, lineParts]
      have later := ih after
      unfold shownTexts shownParts at lines later ⊢
      dsimp only
      rw [List.map_append, List.map_append, List.filter_append, List.filter_append, lines, later]
      rfl
    · rw [if_neg mine, if_neg (fun eq => mine (beq_iff_eq.mp eq))]
      exact ih same

/- No other task takes over the slot of this one. -/
def Undisturbed (task : Nat) : List Said → Ram → Prop
  | [], _ => True
  | call :: calls, ram => (∀ k, takesOver call ram = some k → (ram.pending k).task ≠ task) ∧
    Undisturbed task calls (owned call ram).1

theorem ownedAlone {task : Nat} {calls : List Said} {ram : Ram} (own : Own ram) (cur : ram.cur ≠ none)
    (some : task ≠ 0) (handles : ∀ call ∈ calls, call.task ≠ 0) (undisturbed : Undisturbed task calls ram) :
    linesFor task (ownedRun calls ram).2 = alone task calls (heldText task ram) := by
  induction calls generalizing ram with
  | nil => rfl
  | cons call calls ih =>
    obtain ⟨here,later⟩ := List.forall_mem_cons.mp handles
    obtain ⟨spared,undisturbed⟩ := undisturbed
    have effect := @ownedEffect ram call own here cur
    have rest := ih effect.own (effect.cur ▸ cur) later undisturbed
    have both : linesFor task (ownedRun (call :: calls) ram).2 =
        linesFor task (owned call ram).2 ++ linesFor task (ownedRun calls (owned call ram).1).2 := by
      unfold linesFor
      rw [← List.map_append, ← List.filter_append]
      rfl
    have next : alone task (call :: calls) (heldText task ram) = if call.task = task then
        (assemble call.nowMs call.text [] (heldText task ram)).2 ++
          alone task calls (assemble call.nowMs call.text [] (heldText task ram)).1
      else alone task calls (heldText task ram) := rfl
    rw [both, rest, next]
    by_cases mine : call.task = task
    · subst mine
      rw [if_pos rfl, effect.lines, effect.held]
    · obtain ⟨held,lines⟩ := effect.kept task some (Ne.symm mine) spared
      rw [if_neg mine, lines, held, List.nil_append]

/- A byte stream of one task, cut into calls: it begins with nothing held, no cut lies inside
an escape sequence or a character, and no other task takes over its slot. -/
structure Stream (task : Nat) (bytes : List UInt8) (calls : List Said) (ram : Ram) : Prop where
  handle : task ≠ 0
  handles : ∀ call ∈ calls, call.task ≠ 0
  own : Own ram
  cur : ram.cur ≠ none
  begins : heldText task ram = none
  undisturbed : Undisturbed task calls ram
  cuts : WholeCuts [] (chunksOf task calls)
  bytes : (chunksOf task calls).flatten = bytes

def streamLines (task : Nat) (calls : List Said) (ram : Ram) : List (List UInt8) :=
  shownTexts (linesFor task (ownedRun calls ram).2)

def trimmedLines (bytes : List UInt8) : List (List UInt8) :=
  ((completed [] bytes).map trimmed).filter (fun text => text ≠ [])

/- In this cutting no line has room behind a cut. -/
def CutsFit (task : Nat) (calls : List Said) : Prop := ∀ line ∈ lineParts [] (chunksOf task calls), LineFits line

theorem filterSame {α β : Type} {f g : α → List β} {xs : List α} (blank : ∀ x ∈ xs, f x = [] ↔ g x = []) :
    (xs.map f).filter (fun text => text ≠ []) = (xs.map g).filter (fun text => text ≠ []) ↔ ∀ x ∈ xs, f x = g x := by
  induction xs with
  | nil => exact iff_of_true rfl (List.forall_mem_nil _)
  | cons x xs ih =>
    obtain ⟨here,later⟩ := List.forall_mem_cons.mp blank
    rw [List.map_cons, List.map_cons, List.forall_mem_cons, ← ih later]
    by_cases none : f x = []
    · rw [none, here.mp none]
      exact (and_iff_right rfl).symm
    · have first : decide (f x ≠ []) = true := decide_eq_true none
      have second : decide (g x ≠ []) = true := decide_eq_true (fun empty => none (here.mpr empty))
      rw [List.filter_cons, List.filter_cons, if_pos first, if_pos second, List.cons_eq_cons]

theorem streamTrimmed {task : Nat} {bytes : List UInt8} {calls : List Said} {ram : Ram}
    (stream : Stream task bytes calls ram) : streamLines task calls ram = trimmedLines bytes ↔ CutsFit task calls := by
  have agree := linePartsApart (show PartsApart [] from rfl) stream.cuts
  have whole := linePartsFlatten [] (chunksOf task calls)
  rw [List.flatten_nil, stream.bytes] at whole
  have lines := ownedAlone stream.own stream.cur stream.handle stream.handles stream.undisturbed
  rw [stream.begins] at lines
  unfold streamLines trimmedLines
  rw [lines, aloneParts (show heldBytes none = partsText [] from rfl), ← whole, List.map_map]
  unfold shownParts
  rw [@filterSame _ _ partsText (trimmed ∘ List.flatten) _ (fun line mem => partsBlank (agree line mem))]
  exact forall₂_congr fun line mem => partsTrimmed (agree line mem)

/- Two cuttings of a stream make the same lines, each the longest front of its cleaned line,
exactly where in neither of them anything has room behind a cut. -/
theorem cutsAgree {task : Nat} {bytes : List UInt8} {calls cuts : List Said} {ram other : Ram}
    (one : Stream task bytes calls ram) (two : Stream task bytes cuts other) :
    (streamLines task calls ram = streamLines task cuts other ∧ streamLines task calls ram = trimmedLines bytes) ↔
      CutsFit task calls ∧ CutsFit task cuts := by
  rw [← streamTrimmed one, ← streamTrimmed two]
  constructor
  · rintro ⟨same,trims⟩
    exact ⟨trims,same.symm.trans trims⟩
  · rintro ⟨first,second⟩
    exact ⟨first.trans second.symm,first⟩

instance decidableApart : ∀ skip xs ys, Decidable (Apart skip xs ys)
  | 0, [], _ => inferInstanceAs (Decidable True)
  | _ + 1, [], ys => inferInstanceAs (Decidable (ys = []))
  | skip + 1, _ :: xs, ys => decidableApart skip xs ys
  | 0, c :: xs, ys => decidableApart (tailLen c (xs ++ ys)) xs ys

instance decidableWholeCuts : ∀ before chunks, Decidable (WholeCuts before chunks)
  | _, [] => inferInstanceAs (Decidable True)
  | before, chunk :: chunks =>
    have := decidableWholeCuts (trailing before chunk) chunks
    inferInstanceAs (Decidable (Apart 0 before (beforeNewline (chunk ++ chunks.flatten)) ∧
      WholeCuts (trailing before chunk) chunks))

instance decidableUndisturbed (task : Nat) : ∀ calls ram, Decidable (Undisturbed task calls ram)
  | [], _ => inferInstanceAs (Decidable True)
  | call :: calls, ram =>
    have := decidableUndisturbed task calls (owned call ram).1
    inferInstanceAs (Decidable ((∀ k, takesOver call ram = some k → (ram.pending k).task ≠ task) ∧
      Undisturbed task calls (owned call ram).1))

instance (task : Nat) (calls : List Said) : Decidable (CutsFit task calls) := by
  unfold CutsFit LineFits
  infer_instance

/- A line of 178 letters, a character of two bytes that has no room, and one of one byte that has. -/
def almostFull : List UInt8 := List.replicate 178 0x78 ++ [0xc3,0xa9]

def inOneCall : List Said := [⟨1,0,almostFull ++ [0x61,0x0a]⟩]
def inTwoCalls : List Said := [⟨1,0,almostFull⟩,⟨1,0,[0x61,0x0a]⟩]

theorem startedStream {bytes : List UInt8} {calls : List Said} (mine : ∀ call ∈ calls, call.task ≠ 0)
    (undisturbed : Undisturbed 1 calls startedRam) (cuts : WholeCuts [] (chunksOf 1 calls))
    (same : (chunksOf 1 calls).flatten = bytes) : Stream 1 bytes calls startedRam where
  handle := Nat.one_ne_zero
  handles := mine
  own := (freshOwn startedFresh).1
  cur := startedFresh.cur
  begins := (freshOwn startedFresh).2 1 Nat.one_ne_zero
  undisturbed := undisturbed
  cuts := cuts
  bytes := same

theorem streamWhole : Stream 1 (almostFull ++ [0x61,0x0a]) inOneCall startedRam :=
  startedStream (by decide) (by decide +kernel) (by decide +kernel) (by decide +kernel)

theorem streamCut : Stream 1 (almostFull ++ [0x61,0x0a]) inTwoCalls startedRam :=
  startedStream (by decide) (by decide +kernel) (by decide +kernel) (by decide +kernel)

/- A cut behind the character without room makes another line of it. -/
theorem cutsDiffer : ¬ ∀ task bytes calls cuts ram other, Stream task bytes calls ram →
    Stream task bytes cuts other →
    streamLines task calls ram = streamLines task cuts other ∧ streamLines task calls ram = trimmedLines bytes := by
  intro agree
  have same := (agree 1 _ _ _ _ _ streamWhole streamCut).1
  have whole : streamLines 1 inOneCall startedRam = [List.replicate 178 0x78] := by decide +kernel
  have cut : streamLines 1 inTwoCalls startedRam = [List.replicate 178 0x78 ++ [0x61]] := by decide +kernel
  rw [whole, cut] at same
  exact absurd (List.self_eq_append_right.mp (List.cons.inj same).1) (List.cons_ne_nil _ _)

def colored : List Said := [⟨1,0,[0x61]⟩,⟨1,1,[0x1b,0x5b,0x33,0x31,0x6d]⟩,⟨1,2,[0x62,0x0a]⟩]

theorem cutsAgreeColored : streamLines 1 colored startedRam = [[0x61,0x62]] ∧
    streamLines 1 colored startedRam = streamLines 1 [⟨1,0,colored.flatMap Said.text⟩] startedRam := by
  have parts : Stream 1 (colored.flatMap Said.text) colored startedRam :=
    startedStream (by decide) (by decide) (by decide) (by decide)
  have whole : Stream 1 (colored.flatMap Said.text) [⟨1,0,colored.flatMap Said.text⟩] startedRam :=
    startedStream (by decide) (by decide) (by decide) (by decide)
  exact ⟨by decide,((cutsAgree parts whole).mpr ⟨by decide,by decide⟩).1⟩

end EpskcCommissioner.LogRingCuts

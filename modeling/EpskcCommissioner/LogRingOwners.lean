import EpskcCommissioner.LogRingTasks

/-! Whose text a line has. A chunk commits lines of its own task, and last of all perhaps the
partial line of another task, whose slot it takes over. -/
namespace EpskcCommissioner.LogRingOwners
open LogText LogRing LogRingDevice LogRingTasks

/- The loop of `ingest`, with the task whose text each line has. -/
def ownedLoop (task : Nat) (nowMs : UInt32) :
    List UInt8 → List UInt8 → Option (Fin 4) → Ram → Ram × List (Nat × Commit)
  | [], segment, p, ram =>
    if segment = [] then (ram,[])
    else
      let (k,next,commits) := match p with
        | some k => (k,ram,[])
        | none => claimPending task nowMs ram
      let text := appendClean (next.pending k).text segment
      (next.setPending k {next.pending k with text := text},
        commits.map (fun c => ((ram.pending (victimOf ram)).task,c)))
  | b :: rest, segment, p, ram =>
    if b ≠ 0x0a then ownedLoop task nowMs rest (segment ++ [b]) p ram
    else if segment ≠ [] ∨ p.any (fun k => (ram.pending k).text.bytes ≠ []) then
      let (ram,c) := commitLocked p segment nowMs ram
      let (ram,lines) := ownedLoop task nowMs rest [] none ram
      (ram,(task,c) :: lines)
    else ownedLoop task nowMs rest [] none (freePending p ram)

def owned (call : Said) (ram : Ram) : Ram × List (Nat × Commit) :=
  if ram.cur.isNone || call.text.isEmpty then (ram,[])
  else ownedLoop call.task call.nowMs call.text [] (findPending call.task ram) ram

def ownedRun : List Said → Ram → Ram × List (Nat × Commit)
  | [], ram => (ram,[])
  | call :: calls, ram =>
    let (ram,lines) := owned call ram
    let (ram,later) := ownedRun calls ram
    (ram,lines ++ later)

def takesOver (call : Said) (ram : Ram) : Option (Fin 4) :=
  if trailing [] call.text ≠ [] ∧ findPending call.task ram = none ∧ findPending 0 ram = none then
    some (victimOf ram)
  else none

variable {task : Nat} {nowMs : UInt32} {rest segment : List UInt8} {p : Option (Fin 4)} {ram : Ram}

theorem ownedSame : (ownedLoop task nowMs rest segment p ram).1 = (ingestLoop task nowMs rest segment p ram).1 ∧
    (ownedLoop task nowMs rest segment p ram).2.map Prod.snd = (ingestLoop task nowMs rest segment p ram).2 := by
  induction rest generalizing segment p ram with
  | nil =>
    unfold ownedLoop ingestLoop
    split
    · exact ⟨rfl,rfl⟩
    · refine ⟨rfl,?_⟩
      dsimp only
      rw [List.map_map]
      exact List.map_id _
  | cons b rest ih =>
    unfold ownedLoop ingestLoop
    split
    · exact ih
    · split
      · exact ⟨ih.1,congrArg _ ih.2⟩
      · exact ih

theorem ownedCallSame (call : Said) (ram : Ram) :
    (owned call ram).1 = (ingest call.task call.nowMs call.text ram).1 ∧
      (owned call ram).2.map Prod.snd = (ingest call.task call.nowMs call.text ram).2 := by
  unfold owned ingest
  split
  · exact ⟨rfl,rfl⟩
  · exact ownedSame

theorem freeSlot (room : Room task ram) (absent : findPending task ram = none) :
    ∃ k, findPending 0 ram = some k := by
  obtain ⟨j,free | here⟩ := room
  · cases found : findPending 0 ram with
    | none => exact absurd free (findAbsent found j)
    | some k => exact ⟨k,rfl⟩
  · exact absurd here (findAbsent absent j)

theorem ownedRoom (own : Own ram) (some : task ≠ 0) (found : findPending task ram = p)
    (room : trailing segment rest ≠ [] → Room task ram) :
    (ownedLoop task nowMs rest segment p ram).2 =
      (ingestLoop task nowMs rest segment p ram).2.map (fun c => (task,c)) := by
  induction rest generalizing segment p ram with
  | nil =>
    unfold ownedLoop ingestLoop
    split
    · rfl
    · rename_i more
      cases p with
      | some k => rfl
      | none =>
        obtain ⟨k,free⟩ := freeSlot (room more) found
        have claimed : (claimPending task nowMs ram).2.2 = [] := by
          unfold claimPending
          rw [free]
        dsimp only
        rw [claimed]
        rfl
  | cons b rest ih =>
    unfold trailing at room
    unfold ownedLoop ingestLoop
    split
    · rename_i plain
      rw [if_pos plain] at room
      exact ih own found room
    · rename_i newline
      rw [if_neg newline] at room
      split
      · obtain ⟨minds,none,keeps⟩ := newlineMinds (commitLocked p segment nowMs ram).1 .empty
          own some found (by cases p <;> rfl) (by cases p <;> rfl)
        exact congrArg _ (ih minds.own none (fun more => keeps (room more)))
      · obtain ⟨minds,none,keeps⟩ := newlineMinds (freePending p ram)
          (p.elim .empty (fun k => (ram.pending k).text)) own some found (by cases p <;> rfl)
          (by cases p <;> rfl)
        exact ih minds.own none (fun more => keeps (room more))

/- What a chunk does that takes over a slot: its own lines first, then that of the slot, as it
was held, and what is left of the chunk stays there. -/
structure TakesOver (task : Nat) (nowMs : UInt32) (ram : Ram) (left : List UInt8)
    (said : Option Text × List (UInt32 × Text)) (done : Ram × List (Nat × Commit)) : Prop where
  pending : done.1.pending =
    Function.update ram.pending (victimOf ram) ⟨task,appendClean .empty left⟩
  victim : done.1.victim = ram.victim + 1
  cur : done.1.cur = ram.cur
  held : said.1 = some (appendClean .empty left)
  lines : ∃ (own : List Commit) (c : Commit), done.2 = own.map (fun c => (task,c)) ++ [((ram.pending (victimOf ram)).task,c)] ∧
    own.map spoken = said.2 ∧ spoken c = (nowMs,(ram.pending (victimOf ram)).text)

theorem appendNothing (t : Text) : appendClean t [] = t := by
  cases t
  simp [appendClean,cleaned]

theorem loopTakesOver (full : findPending 0 ram = none) (more : trailing segment rest ≠ []) :
    TakesOver task nowMs ram (trailing segment rest) (assemble nowMs rest segment none)
      (ownedLoop task nowMs rest segment none ram) := by
  induction rest generalizing segment ram with
  | nil =>
    unfold trailing at more
    unfold ownedLoop assemble trailing
    rw [if_neg more, if_neg more]
    have claimed : claimPending task nowMs ram = (victimOf ram,
        (commitLocked (some (victimOf ram)) [] nowMs {ram with victim := ram.victim + 1}).1.setPending
          (victimOf ram) ⟨task,.empty⟩,
        [(commitLocked (some (victimOf ram)) [] nowMs {ram with victim := ram.victim + 1}).2]) := by
      unfold claimPending
      rw [full]
    dsimp only
    rw [claimed]
    dsimp only
    rw [setHere]
    refine ⟨?_,rfl,rfl,rfl,[],_,rfl,rfl,?_⟩
    · unfold commitLocked Ram.setPending
      dsimp only
      rw [Function.update_idem, Function.update_idem]
    · exact congrArg (Prod.mk nowMs) (appendNothing _)
  | cons b rest ih =>
    unfold trailing at more
    unfold ownedLoop assemble trailing
    by_cases plain : b ≠ 0x0a
    · rw [if_pos plain] at more
      rw [if_pos plain, if_pos plain, if_pos plain]
      exact ih full more
    · rw [if_neg plain] at more
      rw [if_neg plain, if_neg plain, if_neg plain]
      by_cases blank : segment = []
      · subst blank
        exact ih full more
      · have spoke : segment ≠ [] ∨ (none : Option (Fin 4)).any (fun k => (ram.pending k).text.bytes ≠ []) = true :=
          .inl blank
        have also : segment ≠ [] ∨ (none : Option Text).any (fun t => t.bytes ≠ []) = true := .inl blank
        rw [if_pos spoke, if_pos also]
        obtain ⟨pending,victim,cur,held,own,c,lines,texts,line⟩ :=
          @ih [] (commitLocked none segment nowMs ram).1 full more
        refine ⟨pending,victim,cur,held,(commitLocked none segment nowMs ram).2 :: own,c,?_,?_,line⟩
        · exact congrArg _ lines
        · exact congrArg _ texts

/- What one call does to the partial lines, and whose lines it commits. -/
structure Effect (call : Said) (ram : Ram) (done : Ram × List (Nat × Commit)) : Prop where
  own : Own done.1
  cur : done.1.cur = ram.cur
  held : heldText call.task done.1 = (assemble call.nowMs call.text [] (heldText call.task ram)).1
  lines : linesFor call.task done.2 = (assemble call.nowMs call.text [] (heldText call.task ram)).2
  kept : ∀ t, t ≠ 0 → t ≠ call.task → (∀ k, takesOver call ram = some k → (ram.pending k).task ≠ t) →
    heldText t done.1 = heldText t ram ∧ linesFor t done.2 = []
  taken : ∀ k, takesOver call ram = some k →
    (ram.pending k).task ≠ 0 ∧ (ram.pending k).task ≠ call.task ∧
    heldText (ram.pending k).task ram = some (ram.pending k).text ∧
    heldText (ram.pending k).task done.1 = none ∧
    linesFor (ram.pending k).task done.2 = [(call.nowMs,(ram.pending k).text)]

theorem heldPending {after : Ram} (t : Nat) (same : after.pending = ram.pending) :
    heldText t after = heldText t ram := by
  unfold heldText findPending
  rw [same]

theorem linesForOwn (t : Nat) (commits : List Commit) :
    linesFor t (commits.map (fun c => (task,c))) = if task = t then commits.map spoken else [] := by
  have split := linesForCall t task commits []
  rw [List.append_nil] at split
  rw [split]
  exact List.append_nil _

theorem linesForLast (t owner : Nat) (commits : List Commit) (c : Commit) :
    linesFor t (commits.map (fun c => (task,c)) ++ [(owner,c)]) =
      (if task = t then commits.map spoken else []) ++ if owner = t then [spoken c] else [] := by
  rw [linesForCall]
  congr 1
  exact linesForOwn t [c]

/- A call that finds its slot, or a free one, or needs none. -/
theorem roomEffect {call : Said} (own : Own ram) (some : call.task ≠ 0) (cur : ram.cur ≠ none)
    (none : takesOver call ram = none) : Effect call ram (owned call ram) := by
  have room : trailing [] call.text ≠ [] → Room call.task ram := by
    intro more
    by_contra full
    have absent : findPending call.task ram = .none := findNobody (fun k here => full ⟨k,.inr here⟩)
    have nobody : findPending 0 ram = .none := findNobody (fun k free => full ⟨k,.inl free⟩)
    unfold takesOver at none
    rw [if_pos ⟨more,absent,nobody⟩] at none
    exact absurd none (Option.some_ne_none _)
  obtain ⟨minds,held,lines⟩ := ingestAssembles own some cur room
  have mine : (owned call ram).2 = (ingest call.task call.nowMs call.text ram).2.map (fun c => (call.task,c)) := by
    unfold owned ingest
    split
    · rfl
    · exact ownedRoom own some rfl room
  have state := (ownedCallSame call ram).1
  refine ⟨?_,?_,?_,?_,?_,?_⟩
  · rw [state]
    exact minds.own
  · rw [state]
    exact minds.cur
  · rw [state]
    exact held
  · rw [mine, linesForOwn, if_pos rfl]
    exact lines
  · intro t nonzero other _
    rw [state, mine, linesForOwn, if_neg (Ne.symm other)]
    exact ⟨minds.others t nonzero other,rfl⟩
  · intro k taken
    rw [none] at taken
    exact absurd taken.symm (Option.some_ne_none k)

theorem takenEffect {call : Said} {k : Fin 4} (own : Own ram) (some : call.task ≠ 0) (cur : ram.cur ≠ none)
    (taken : takesOver call ram = .some k) : Effect call ram (owned call ram) := by
  obtain ⟨⟨more,absent,full⟩,same⟩ := Option.ite_none_right_eq_some.mp taken
  cases Option.some.inj same
  have runs : (ram.cur.isNone || call.text.isEmpty) = false := by
    rw [ringRuns cur, Bool.false_or]
    refine List.isEmpty_eq_false_iff.mpr (fun empty => more ?_)
    rw [empty]
    rfl
  have loop : owned call ram = ownedLoop call.task call.nowMs call.text [] none ram := by
    unfold owned
    rw [runs, absent]
    rfl
  obtain ⟨pending,_,after,held,commits,c,lines,texts,line⟩ :=
    @loopTakesOver call.task call.nowMs call.text [] ram full more
  rw [← loop] at pending after lines
  generalize owned call ram = done at pending after lines ⊢
  have alone := findAbsent absent
  have holder := findAbsent full (victimOf ram)
  have set : done.1.pending = (ram.setPending (victimOf ram) ⟨call.task,appendClean .empty (trailing [] call.text)⟩).pending :=
    pending
  have nothing : heldText call.task ram = none := by
    unfold heldText
    rw [absent]
    rfl
  have owns : Own done.1 := by
    intro i j both nonzero
    rw [pending] at both nonzero
    simp only [Function.update_apply] at both nonzero
    by_cases first : i = victimOf ram
    · by_cases second : j = victimOf ram
      · exact first.trans second.symm
      · rw [if_pos first, if_neg second] at both
        exact absurd both.symm (alone j)
    · by_cases second : j = victimOf ram
      · rw [if_neg first, if_pos second] at both
        exact absurd both (alone i)
      · rw [if_neg first, if_neg second] at both
        rw [if_neg first] at nonzero
        exact own i j both nonzero
  have other := alone (victimOf ram)
  have heldBefore : heldText (ram.pending (victimOf ram)).task ram = .some (ram.pending (victimOf ram)).text := by
    unfold heldText
    rw [findOwn own holder rfl]
    rfl
  have heldAfter : heldText (ram.pending (victimOf ram)).task done.1 = none := by
    have nobody : findPending (ram.pending (victimOf ram)).task done.1 = none := by
      refine findNobody (fun j same => ?_)
      rw [pending, Function.update_apply] at same
      by_cases here : j = victimOf ram
      · rw [if_pos here] at same
        exact other same.symm
      · rw [if_neg here] at same
        exact here (own j _ same (same ▸ holder))
    unfold heldText
    rw [nobody]
    rfl
  refine ⟨owns,after,?_,?_,?_,?_⟩
  · rw [nothing, held, heldPending call.task set]
    have found := findOwn owns some (k := victimOf ram) (by rw [pending, Function.update_self])
    unfold heldText
    unfold findPending at found ⊢
    rw [set] at found
    rw [found, Option.map_some, setHere]
  · rw [nothing, lines, linesForLast, if_pos rfl, if_neg other, List.append_nil, texts]
  · intro t nonzero apart spared
    have different : (ram.pending (victimOf ram)).task ≠ t := spared _ taken
    rw [heldPending t set, lines, linesForLast, if_neg (Ne.symm apart), if_neg different]
    exact ⟨heldElsewhere different (Ne.symm apart),rfl⟩
  · intro k same
    cases Option.some.inj (taken.symm.trans same)
    refine ⟨holder,other,heldBefore,heldAfter,?_⟩
    rw [lines, linesForLast, if_neg (Ne.symm other), if_pos rfl, line]
    rfl

theorem ownedEffect {call : Said} (own : Own ram) (some : call.task ≠ 0) (cur : ram.cur ≠ none) :
    Effect call ram (owned call ram) := by
  cases taken : takesOver call ram with
  | none => exact roomEffect own some cur taken
  | some k => exact takenEffect own some cur taken

end EpskcCommissioner.LogRingOwners

import EpskcCommissioner.LogRingNumbers

/-! Tasks that log at the same time do not disturb each other: as long as a free slot is
left for whoever needs one, what is committed for a task depends on its own calls alone. -/
namespace EpskcCommissioner.LogRingTasks
open LogText LogRing LogRingDevice LogRingNumbers

structure Said where
  task : Nat
  nowMs : UInt32
  text : List UInt8
  deriving DecidableEq, Repr

def spoken (c : Commit) : UInt32 × Text := (c.uptimeMs,c.text)

def logged : List Said → Ram → List (Nat × Commit)
  | [], _ => []
  | call :: calls, ram =>
    let (ram,commits) := ingest call.task call.nowMs call.text ram
    commits.map (fun c => (call.task,c)) ++ logged calls ram

def trailing : (segment : List UInt8) → List UInt8 → List UInt8
  | segment, [] => segment
  | segment, b :: rest => if b ≠ 0x0a then trailing (segment ++ [b]) rest else trailing [] rest

def Room (task : Nat) (ram : Ram) : Prop :=
  ∃ k, (ram.pending k).task = 0 ∨ (ram.pending k).task = task

/- No call needs a pending slot while all of them are taken by other tasks. -/
def Roomy : List Said → Ram → Prop
  | [], _ => True
  | call :: calls, ram =>
    (trailing [] call.text ≠ [] → Room call.task ram) ∧
    Roomy calls (ingest call.task call.nowMs call.text ram).1

structure FreshRing (ram : Ram) : Prop where
  cur : ram.cur ≠ none
  pending : ∀ k, ram.pending k = ⟨0,.empty⟩

def heldText (task : Nat) (ram : Ram) : Option Text :=
  (findPending task ram).map (fun k => (ram.pending k).text)

def Own (ram : Ram) : Prop :=
  ∀ i j, (ram.pending i).task = (ram.pending j).task → (ram.pending i).task ≠ 0 → i = j

def assemble (nowMs : UInt32) :
    List UInt8 → List UInt8 → Option Text → Option Text × List (UInt32 × Text)
  | [], segment, held =>
    if segment = [] then (held,[]) else (some (appendClean (held.getD .empty) segment),[])
  | b :: rest, segment, held =>
    if b ≠ 0x0a then assemble nowMs rest (segment ++ [b]) held
    else if segment ≠ [] ∨ held.any (fun t => t.bytes ≠ []) then
      let (after,lines) := assemble nowMs rest [] none
      (after,(nowMs,appendClean (held.getD .empty) segment) :: lines)
    else assemble nowMs rest [] none

theorem findTask {task : Nat} {ram : Ram} {k : Fin 4} (found : findPending task ram = some k) :
    (ram.pending k).task = task := by
  have same := List.find?_some found
  exact beq_iff_eq.mp same

theorem findOwn {task : Nat} {ram : Ram} {k : Fin 4} (own : Own ram) (some : task ≠ 0)
    (here : (ram.pending k).task = task) : findPending task ram = .some k := by
  cases found : findPending task ram with
  | none =>
    have := List.find?_eq_none.mp found k (List.mem_finRange k)
    exact absurd (beq_iff_eq.mpr here) this
  | some j =>
    have there := findTask found
    rw [own j k (there.trans here.symm) (there ▸ some)]

theorem findNobody {task : Nat} {ram : Ram} (nobody : ∀ k, (ram.pending k).task ≠ task) :
    findPending task ram = none :=
  List.find?_eq_none.mpr fun k _ same => nobody k (beq_iff_eq.mp same)

theorem findAbsent {task : Nat} {ram : Ram} (absent : findPending task ram = none) (k : Fin 4) :
    (ram.pending k).task ≠ task :=
  fun same => List.find?_eq_none.mp absent k (List.mem_finRange k) (beq_iff_eq.mpr same)

theorem setHere (k : Fin 4) (v : Pending) (ram : Ram) : (ram.setPending k v).pending k = v :=
  Function.update_self ..

theorem setThere {j k : Fin 4} (v : Pending) (ram : Ram) (other : j ≠ k) :
    (ram.setPending k v).pending j = ram.pending j :=
  Function.update_of_ne other ..

theorem heldElsewhere {t : Nat} {ram : Ram} {k : Fin 4} {v : Pending}
    (before : (ram.pending k).task ≠ t) (after : v.task ≠ t) :
    heldText t (ram.setPending k v) = heldText t ram := by
  have same : ∀ j, ((ram.setPending k v).pending j).task = t ↔ (ram.pending j).task = t := by
    intro j
    by_cases here : j = k
    · subst here
      rw [setHere]
      exact iff_of_false after before
    · rw [setThere v ram here]
  have find : findPending t (ram.setPending k v) = findPending t ram := by
    unfold findPending
    congr 1
    funext j
    exact Bool.eq_iff_iff.mpr (by rw [beq_iff_eq, beq_iff_eq]; exact same j)
  unfold heldText
  rw [find]
  cases found : findPending t ram with
  | none => rfl
  | some j =>
    have there : j ≠ k := fun eq => before (eq ▸ findTask found)
    rw [Option.map_some, Option.map_some, setThere v ram there]

structure Minds (task : Nat) (ram after : Ram) : Prop where
  others : ∀ t, t ≠ 0 → t ≠ task → heldText t after = heldText t ram
  own : Own after
  slots : ∀ k, (after.pending k).task = (ram.pending k).task ∨ (after.pending k).task = 0 ∨
    (after.pending k).task = task
  cur : after.cur = ram.cur

theorem mindsSame {task : Nat} {ram after : Ram} (own : Own ram) (pending : after.pending = ram.pending)
    (cur : after.cur = ram.cur) : Minds task ram after := by
  refine ⟨fun t _ _ => ?_,?_,fun k => .inl (by rw [pending]),cur⟩
  · unfold heldText findPending
    rw [pending]
  · unfold Own
    rw [pending]
    exact own

theorem mindsTrans {task : Nat} {ram next after : Ram} (first : Minds task ram next)
    (then_ : Minds task next after) : Minds task ram after := by
  refine ⟨fun t some other => ?_,then_.own,fun k => ?_,then_.cur.trans first.cur⟩
  · exact (then_.others t some other).trans (first.others t some other)
  · rcases then_.slots k with same | rest
    · rw [same]
      exact first.slots k
    · exact .inr rest

theorem mindsSet {task : Nat} {ram : Ram} {k : Fin 4} {v : Pending} (own : Own ram) (some : task ≠ 0)
    (mine : (ram.pending k).task = task ∨ (ram.pending k).task = 0 ∧ findPending task ram = none)
    (still : v.task = task ∨ v.task = 0) : Minds task ram (ram.setPending k v) := by
  have alone : ∀ j, j ≠ k → (ram.pending j).task ≠ task := by
    intro j other same
    rcases mine with here | ⟨_,absent⟩
    · exact other (own j k (same.trans here.symm) (same ▸ some))
    · exact findAbsent absent j same
  refine ⟨fun t nonzero other => ?_,fun i j same nonzero => ?_,fun j => ?_,rfl⟩
  · refine heldElsewhere (fun before => ?_) (fun after => ?_)
    · rcases mine with here | ⟨free,_⟩
      · exact other (before.symm.trans here)
      · exact nonzero (before.symm.trans free)
    · rcases still with here | free
      · exact other (after.symm.trans here)
      · exact nonzero (after.symm.trans free)
  · by_cases first : i = k
    · by_cases second : j = k
      · exact first.trans second.symm
      · rw [first, setHere] at same nonzero
        rw [setThere v ram second] at same
        exact absurd (same.symm.trans (still.resolve_right nonzero)) (alone j second)
    · rw [setThere v ram first] at same nonzero
      by_cases second : j = k
      · rw [second, setHere] at same
        exact absurd (same.trans (still.resolve_right (same ▸ nonzero))) (alone i first)
      · rw [setThere v ram second] at same
        exact own i j same nonzero
  · by_cases here : j = k
    · rw [here, setHere]
      exact .inr still.symm
    · exact .inl (by rw [setThere v ram here])

theorem heldSet {task : Nat} {ram : Ram} {k : Fin 4} {text : Text} (some : task ≠ 0)
    (minds : Minds task ram (ram.setPending k ⟨task,text⟩)) :
    heldText task (ram.setPending k ⟨task,text⟩) = .some text := by
  have found := findOwn minds.own some (k := k) (congrArg Pending.task (setHere k ⟨task,text⟩ ram))
  unfold heldText
  rw [found, Option.map_some, setHere]

theorem heldFreed {task : Nat} {ram : Ram} {k : Fin 4} (text : Text) (own : Own ram) (some : task ≠ 0)
    (here : (ram.pending k).task = task) : findPending task (ram.setPending k ⟨0,text⟩) = none := by
  refine findNobody fun j same => ?_
  by_cases eq : j = k
  · rw [eq, setHere] at same
    exact some same.symm
  · rw [setThere _ ram eq] at same
    exact eq (own j k (same.trans here.symm) (same ▸ some))

structure Assembles (task : Nat) (ram : Ram) (said : Option Text × List (UInt32 × Text))
    (done : Ram × List Commit) : Prop where
  minds : Minds task ram done.1
  held : heldText task done.1 = said.1
  lines : done.2.map spoken = said.2

theorem keepAssembles {task : Nat} {nowMs : UInt32} {segment : List UInt8} {p : Option (Fin 4)}
    {ram : Ram} (own : Own ram) (some : task ≠ 0) (found : findPending task ram = p)
    (more : segment ≠ []) (room : Room task ram) :
    Assembles task ram (assemble nowMs [] segment (heldText task ram))
      (ingestLoop task nowMs [] segment p ram) := by
  unfold assemble ingestLoop
  rw [if_neg more, if_neg more]
  cases p with
  | some k =>
    have here := findTask found
    have text : heldText task ram = .some (ram.pending k).text := by
      unfold heldText
      rw [found]
      rfl
    have minds : Minds task ram (ram.setPending k ⟨task,appendClean (ram.pending k).text segment⟩) :=
      mindsSet own some (.inl here) (.inl rfl)
    have same : ({ram.pending k with text := appendClean (ram.pending k).text segment} : Pending) =
        ⟨task,appendClean (ram.pending k).text segment⟩ := by
      rw [← here]
    dsimp only
    rw [same, text]
    exact ⟨minds,heldSet some minds,rfl⟩
  | none =>
    obtain ⟨j,free | here⟩ := room
    · obtain ⟨k,free⟩ : ∃ k, findPending 0 ram = .some k := by
        cases none : findPending 0 ram with
        | none => exact absurd free (findAbsent none j)
        | some k => exact ⟨k,rfl⟩
      have claimed : claimPending task nowMs ram = (k,ram.setPending k ⟨task,.empty⟩,[]) := by
        unfold claimPending
        rw [free]
      have text : heldText task ram = none := by
        unfold heldText
        rw [found]
        rfl
      have minds : Minds task ram (ram.setPending k ⟨task,appendClean .empty segment⟩) :=
        mindsSet own some (.inr ⟨findTask free,found⟩) (.inl rfl)
      have twice : (ram.setPending k ⟨task,.empty⟩).setPending k ⟨task,appendClean .empty segment⟩ =
          ram.setPending k ⟨task,appendClean .empty segment⟩ := by
        unfold Ram.setPending
        dsimp only
        rw [Function.update_idem]
      dsimp only
      rw [claimed, text]
      dsimp only
      rw [setHere]
      dsimp only
      rw [twice]
      exact ⟨minds,heldSet some minds,rfl⟩
    · exact absurd here (findAbsent found j)

theorem newlineMinds {task : Nat} {ram : Ram} {p : Option (Fin 4)} (after : Ram) (text : Text)
    (own : Own ram) (some : task ≠ 0) (found : findPending task ram = p)
    (pending : after.pending = match p with
      | none => ram.pending
      | .some k => (ram.setPending k ⟨0,text⟩).pending)
    (cur : after.cur = ram.cur) :
    Minds task ram after ∧ findPending task after = none ∧ (Room task ram → Room task after) := by
  cases p with
  | none =>
    refine ⟨mindsSame own pending cur,?_,?_⟩
    · unfold findPending at found ⊢
      rw [pending]
      exact found
    · unfold Room
      rw [pending]
      exact id
  | some k =>
    have here := findTask found
    have freed : Minds task ram (ram.setPending k ⟨0,text⟩) := mindsSet own some (.inl here) (.inr rfl)
    have same : Minds task (ram.setPending k ⟨0,text⟩) after := mindsSame freed.own pending cur
    refine ⟨mindsTrans freed same,?_,fun _ => ⟨k,.inl ?_⟩⟩
    · have none := heldFreed text own some here
      unfold findPending at none ⊢
      rw [pending]
      exact none
    · rw [pending]
      exact congrArg Pending.task (setHere k _ ram)

theorem loopAssembles {task : Nat} {nowMs : UInt32} {rest segment : List UInt8} {p : Option (Fin 4)}
    {ram : Ram} (own : Own ram) (some : task ≠ 0) (found : findPending task ram = p)
    (room : trailing segment rest ≠ [] → Room task ram) :
    Assembles task ram (assemble nowMs rest segment (heldText task ram))
      (ingestLoop task nowMs rest segment p ram) := by
  induction rest generalizing segment p ram with
  | nil =>
    by_cases last : segment = []
    · subst last
      exact ⟨mindsSame own rfl rfl,rfl,rfl⟩
    · exact keepAssembles own some found last (room last)
  | cons b rest ih =>
    have text : heldText task ram = p.map (fun k => (ram.pending k).text) := by
      unfold heldText
      rw [found]
    unfold ingestLoop assemble
    unfold trailing at room
    by_cases newline : b ≠ 0x0a
    · rw [if_pos newline, if_pos newline]
      rw [if_pos newline] at room
      exact ih own found room
    · rw [if_neg newline, if_neg newline]
      rw [if_neg newline] at room
      have same : (p.any (fun k => (ram.pending k).text.bytes ≠ []) = true) ↔
          ((heldText task ram).any (fun t => t.bytes ≠ []) = true) := by
        rw [text, Option.any_map]
      by_cases ends : segment ≠ [] ∨ p.any (fun k => (ram.pending k).text.bytes ≠ []) = true
      · have ends' := ends.imp_right same.mp
        rw [if_pos ends, if_pos ends']
        obtain ⟨minds,none,keeps⟩ := newlineMinds (commitLocked p segment nowMs ram).1 .empty
          own some found (by cases p <;> rfl) (by cases p <;> rfl)
        have after := ih minds.own none (fun more => keeps (room more))
        have empty : heldText task (commitLocked p segment nowMs ram).1 = .none := by
          unfold heldText
          rw [none]
          rfl
        rw [empty] at after
        have line : spoken (commitLocked p segment nowMs ram).2 =
            (nowMs,appendClean ((heldText task ram).getD .empty) segment) := by
          rw [text]
          cases p <;> rfl
        exact ⟨mindsTrans minds after.minds,after.held,
          List.cons_eq_cons.mpr ⟨line,after.lines⟩⟩
      · have ends' := fun spoke => ends (Or.imp_right same.mpr spoke)
        rw [if_neg ends, if_neg ends']
        obtain ⟨minds,none,keeps⟩ := newlineMinds (freePending p ram)
          (p.elim .empty (fun k => (ram.pending k).text)) own some found (by cases p <;> rfl)
          (by cases p <;> rfl)
        have after := ih minds.own none (fun more => keeps (room more))
        have empty : heldText task (freePending p ram) = .none := by
          unfold heldText
          rw [none]
          rfl
        rw [empty] at after
        exact ⟨mindsTrans minds after.minds,after.held,after.lines⟩

theorem ingestAssembles {call : Said} {ram : Ram} (own : Own ram) (some : call.task ≠ 0)
    (cur : ram.cur ≠ none) (room : trailing [] call.text ≠ [] → Room call.task ram) :
    Assembles call.task ram (assemble call.nowMs call.text [] (heldText call.task ram))
      (ingest call.task call.nowMs call.text ram) := by
  have runs := ringRuns cur
  unfold ingest
  by_cases empty : call.text = []
  · rw [empty, runs]
    exact ⟨mindsSame own rfl rfl,rfl,rfl⟩
  · rw [runs, List.isEmpty_eq_false_iff.mpr empty]
    exact loopAssembles own some rfl room

def alone (task : Nat) : List Said → Option Text → List (UInt32 × Text)
  | [], _ => []
  | call :: calls, held =>
    if call.task = task then
      let (held,lines) := assemble call.nowMs call.text [] held
      lines ++ alone task calls held
    else alone task calls held

def linesFor (task : Nat) (lines : List (Nat × Commit)) : List (UInt32 × Text) :=
  (lines.filter (fun line => line.1 == task)).map (fun line => spoken line.2)

theorem linesForCall (task owner : Nat) (commits : List Commit) (rest : List (Nat × Commit)) :
    linesFor task (commits.map (fun c => (owner,c)) ++ rest) =
      (if owner = task then commits.map spoken else []) ++ linesFor task rest := by
  unfold linesFor
  rw [List.filter_append, List.map_append]
  congr 1
  by_cases same : owner = task
  · subst same
    rw [if_pos rfl, List.filter_eq_self.mpr, List.map_map]
    · rfl
    · intro line mem
      obtain ⟨c,_,rfl⟩ := List.mem_map.mp mem
      exact beq_self_eq_true owner
  · rw [if_neg same, List.filter_eq_nil_iff.mpr]
    · rfl
    · intro line mem
      obtain ⟨c,_,rfl⟩ := List.mem_map.mp mem
      exact fun eq => same (beq_iff_eq.mp eq)

/- A task's lines are those that its own calls make, whoever logs in between. -/
theorem loggedAlone {task : Nat} {calls : List Said} {ram : Ram} (own : Own ram) (cur : ram.cur ≠ none)
    (some : task ≠ 0) (handles : ∀ call ∈ calls, call.task ≠ 0) (roomy : Roomy calls ram) :
    linesFor task (logged calls ram) = alone task calls (heldText task ram) := by
  induction calls generalizing ram with
  | nil => rfl
  | cons call calls ih =>
    obtain ⟨here,later⟩ := List.forall_mem_cons.mp handles
    obtain ⟨minds,held,lines⟩ := ingestAssembles own here cur roomy.1
    have rest := ih minds.own (minds.cur ▸ cur) later roomy.2
    unfold logged alone
    rw [linesForCall, rest]
    by_cases same : call.task = task
    · rw [if_pos same, if_pos same, ← same, lines, held]
    · rw [if_neg same, if_neg same, minds.others task some (Ne.symm same)]
      rfl

theorem aloneFilter (task : Nat) (calls : List Said) (held : Option Text) :
    alone task (calls.filter (fun call => call.task == task)) held = alone task calls held := by
  induction calls generalizing held with
  | nil => rfl
  | cons call calls ih =>
    rw [List.filter_cons]
    by_cases same : call.task = task
    · rw [if_pos (beq_iff_eq.mpr same)]
      unfold alone
      rw [if_pos same, if_pos same]
      dsimp only
      rw [ih]
    · rw [if_neg (fun eq => same (beq_iff_eq.mp eq)), ih]
      exact (if_neg same).symm

theorem aloneRoomy {task : Nat} {calls : List Said} {ram : Ram} (own : Own ram) (cur : ram.cur ≠ none)
    (some : task ≠ 0) (mine : ∀ call ∈ calls, call.task = task)
    (slots : ∀ k, (ram.pending k).task = 0 ∨ (ram.pending k).task = task) : Roomy calls ram := by
  induction calls generalizing ram with
  | nil => trivial
  | cons call calls ih =>
    obtain ⟨here,later⟩ := List.forall_mem_cons.mp mine
    have room : trailing [] call.text ≠ [] → Room call.task ram := fun _ => ⟨0,here ▸ slots 0⟩
    obtain ⟨minds,_,_⟩ := ingestAssembles own (here ▸ some) cur room
    refine ⟨room,ih minds.own (minds.cur ▸ cur) later (fun k => ?_)⟩
    rcases minds.slots k with same | free | own
    · exact same ▸ slots k
    · exact .inl free
    · exact .inr (own.trans here)

theorem freshOwn {ram : Ram} (fresh : FreshRing ram) :
    Own ram ∧ ∀ task, task ≠ 0 → heldText task ram = none := by
  have free : ∀ k, (ram.pending k).task = 0 := fun k => congrArg Pending.task (fresh.pending k)
  refine ⟨fun i j _ some => absurd (free i) some,fun task some => ?_⟩
  unfold heldText
  rw [findNobody (fun k same => some (same.symm.trans (free k)))]
  rfl

theorem loggedOwner {calls : List Said} {ram : Ram} {line : Nat × Commit}
    (mem : line ∈ logged calls ram) : ∃ call ∈ calls, call.task = line.1 := by
  induction calls generalizing ram with
  | nil => exact absurd mem List.not_mem_nil
  | cons call calls ih =>
    rcases List.mem_append.mp mem with here | later
    · obtain ⟨c,_,rfl⟩ := List.mem_map.mp here
      exact ⟨call,List.mem_cons_self,rfl⟩
    · obtain ⟨other,called,same⟩ := ih later
      exact ⟨other,List.mem_cons_of_mem _ called,same⟩

/- Each task's lines, in order and text, are those of its calls alone on a fresh ring; and
every line is one of some task's lines there, so it has no bytes of another. -/
theorem tasksApart {calls : List Said} {ram : Ram} (fresh : FreshRing ram)
    (handles : ∀ call ∈ calls, call.task ≠ 0) (roomy : Roomy calls ram) :
    (∀ task, task ≠ 0 → ∀ clean, FreshRing clean →
      linesFor task (logged calls ram) =
        linesFor task (logged (calls.filter (fun call => call.task == task)) clean)) ∧
    ∀ line ∈ logged calls ram, ∀ clean, FreshRing clean →
      ∃ task, task ≠ 0 ∧
        spoken line.2 ∈ linesFor task (logged (calls.filter (fun call => call.task == task)) clean) := by
  have apart : ∀ task, task ≠ 0 → ∀ clean, FreshRing clean →
      linesFor task (logged calls ram) =
        linesFor task (logged (calls.filter (fun call => call.task == task)) clean) := by
    intro task some clean also
    obtain ⟨own,none⟩ := freshOwn fresh
    obtain ⟨cleanOwn,cleanNone⟩ := freshOwn also
    have mine : ∀ call ∈ calls.filter (fun call => call.task == task), call.task = task :=
      fun call mem => beq_iff_eq.mp (List.mem_filter.mp mem).2
    have room := aloneRoomy cleanOwn also.cur some mine
      (fun k => .inl (congrArg Pending.task (also.pending k)))
    rw [loggedAlone own fresh.cur some handles roomy,
      loggedAlone cleanOwn also.cur some (fun call mem => mine call mem ▸ some) room,
      aloneFilter, none task some, cleanNone task some]
  refine ⟨apart,fun line mem clean also => ?_⟩
  have owner := loggedOwner mem
  obtain ⟨call,called,same⟩ := owner
  have some : line.1 ≠ 0 := same ▸ handles call called
  refine ⟨line.1,some,apart line.1 some clean also ▸ ?_⟩
  exact List.mem_map.mpr ⟨line,List.mem_filter.mpr ⟨mem,beq_self_eq_true _⟩,rfl⟩

/- Two tasks in turn: each one's halves of a line find each other. -/
def interleaved : List Said :=
  [⟨1,5,[0x61]⟩,⟨2,6,[0x78]⟩,⟨1,7,[0x62,0x0a]⟩,⟨2,8,[0x79,0x0a,0x7a]⟩]

def startedRam : Ram := {Ram.cleared with cur := some ⟨0,by decide⟩}

theorem startedFresh : FreshRing startedRam := ⟨Option.some_ne_none _,fun _ => rfl⟩

theorem tasksApartTwo : linesFor 2 (logged interleaved startedRam) =
      linesFor 2 (logged [⟨2,6,[0x78]⟩,⟨2,8,[0x79,0x0a,0x7a]⟩] startedRam) ∧
    (linesFor 2 (logged interleaved startedRam)).map (fun line => line.2.bytes) = [[0x78,0x79]] := by
  have roomy : Roomy interleaved startedRam :=
    ⟨fun _ => ⟨0,.inl rfl⟩,fun _ => ⟨1,.inl rfl⟩,fun _ => ⟨2,.inl rfl⟩,fun _ => ⟨2,.inl rfl⟩,trivial⟩
  have apart := (tasksApart startedFresh (by decide) roomy).1 2 (by decide) startedRam startedFresh
  exact ⟨apart,by decide⟩

def performed : List (Call × UInt32) → Ram → Ram × List Commit
  | [], ram => (ram,[])
  | (call,nowMs) :: calls, ram =>
    let (ram,commits) := execute call nowMs ram
    let (ram,later) := performed calls ram
    (ram,commits ++ later)

theorem performedAppend (calls more : List (Call × UInt32)) (ram : Ram) :
    performed (calls ++ more) ram =
      ((performed more (performed calls ram).1).1,
        (performed calls ram).2 ++ (performed more (performed calls ram).1).2) := by
  induction calls generalizing ram with
  | nil => rfl
  | cons call calls ih =>
    simp only [List.cons_append,performed,ih,List.append_assoc]

theorem performedSaid (calls : List Said) (ram : Ram) :
    (performed (calls.map (fun call => (.ingest call.task call.text,call.nowMs))) ram).2 =
      (logged calls ram).map (fun line => line.2) := by
  induction calls generalizing ram with
  | nil => rfl
  | cons call calls ih =>
    unfold logged
    rw [List.map_cons, List.map_append, List.map_map, ← ih]
    exact congrArg (· ++ _) (List.map_id _).symm

structure Kept (s : Device) : Prop where
  off : s.ram.cur = none → s.ram = .cleared
  runs : s.ram.cur ≠ none → ∃ ram calls, FreshRing ram ∧ performed calls ram = (s.ram,s.boot.lines)

theorem executeCur (call : Call) (nowMs : UInt32) (ram : Ram) :
    (execute call nowMs ram).1.cur = ram.cur := by
  obtain ⟨_,_,cur,_,_⟩ := executeCounts (n := ram.latest.toNat) call nowMs (UInt32.ofNat_toNat.symm)
  exact cur

theorem executeOff {ram : Ram} (call : Call) (nowMs : UInt32) (off : ram.cur = none) :
    execute call nowMs ram = (ram,[]) := by
  cases call with
  | ingest task text =>
    change ingest task nowMs text ram = _
    unfold ingest
    rw [off]
    rfl
  | logRingLine text =>
    change logRingLine nowMs text ram = _
    unfold logRingLine
    rw [off]
    rfl

theorem keptEnter {s : Device} (kept : Kept s) (id : Nat) (call : Call) (nowMs : UInt32) :
    Kept (enter id call nowMs s) := by
  have same : (enter id call nowMs s).ram = (execute call nowMs s.ram).1 := rfl
  have lines : (enter id call nowMs s).boot.lines = s.boot.lines ++ (execute call nowMs s.ram).2 := rfl
  refine ⟨fun off => ?_,fun runs => ?_⟩
  · rw [same, executeCur] at off
    rw [same, executeOff call nowMs off]
    exact kept.off off
  · rw [same, executeCur] at runs
    obtain ⟨ram,calls,fresh,done⟩ := kept.runs runs
    refine ⟨ram,calls ++ [(call,nowMs)],fresh,?_⟩
    rw [performedAppend, done, same, lines]
    simp only [performed,List.append_nil]

theorem keptSame {s t : Device} (kept : Kept s) (ram : t.ram = s.ram)
    (lines : t.boot.lines = s.boot.lines) : Kept t := by
  refine ⟨fun off => ?_,fun runs => ?_⟩
  · rw [ram] at off ⊢
    exact kept.off off
  · rw [ram] at runs ⊢
    rw [lines]
    exact kept.runs runs

theorem sectionKeeps (h : Half) (k : Critical) (s : Device) :
    (sectionStep h k s).ram = s.ram ∧ (sectionStep h k s).boot.lines = s.boot.lines := by
  unfold sectionStep
  split
  · dsimp only
    split <;> exact ⟨rfl,rfl⟩
  · exact ⟨rfl,rfl⟩
  · split <;> exact ⟨rfl,rfl⟩

theorem writeBackKeeps (id : Nat) (work : List Line) (own : List Nat) (s : Device) :
    (writeBackStep id work own s).ram = s.ram ∧ (writeBackStep id work own s).boot.lines = s.boot.lines := by
  cases work <;> exact ⟨rfl,rfl⟩

theorem initFresh {s : Device} (bootId : UInt64) (off : s.ram = .cleared) :
    FreshRing (init bootId s).ram ∧ (init bootId s).boot.lines = [] := by
  refine ⟨⟨nofun,fun k => ?_⟩,rfl⟩
  change (initRam s.memory s.ram).pending k = _
  rw [off]
  unfold initRam
  split <;> rfl

theorem keptStep {s t : Device} {l : Label} (kept : Kept s) (taken : step s l = some t) : Kept t := by
  cases stepped taken with
  | evict k => exact keptSame kept rfl rfl
  | call id call nowMs _ => exact keptSame kept rfl rfl
  | enter id call nowMs _ _ => exact keptEnter kept id call nowMs
  | proceed h k _ _ => exact keptSame kept (sectionKeeps h k s).1 (sectionKeeps h k s).2
  | writeBack id work own _ =>
    exact keptSame kept (writeBackKeeps id work own s).1 (writeBackKeeps id work own s).2
  | crash _ => exact ⟨fun _ => rfl,fun runs => absurd rfl runs⟩
  | init bootId off =>
    obtain ⟨fresh,none⟩ := initFresh bootId (kept.off (Option.isNone_iff_eq_none.mp off))
    exact ⟨fun off => absurd off fresh.cur,fun _ => ⟨_,[],fresh,by rw [none]; rfl⟩⟩

/- The lines of a boot are those of its calls, in the order in which they took the lock, on a
ring that was fresh; and where tasks ingest and nobody calls `log_ring_line`, they are the lines
that the sequence of these calls logs. -/
theorem bootPerformed {s : Device} (reached : device.Reachable s) (runs : s.ram.cur ≠ none) :
    ∃ ram calls, FreshRing ram ∧ performed calls ram = (s.ram,s.boot.lines) ∧
      ∀ said : List Said, calls = said.map (fun call => (.ingest call.task call.text,call.nowMs)) →
        s.boot.lines = (logged said ram).map (fun line => line.2) := by
  have kept : Kept s := by
    refine reachableInvariant Kept ?_ (fun s l t => keptStep) reached
    rintro _ ⟨memory,rfl⟩
    exact ⟨fun _ => rfl,fun runs => absurd rfl runs⟩
  obtain ⟨ram,calls,fresh,done⟩ := kept.runs runs
  refine ⟨ram,calls,fresh,done,fun said ingested => ?_⟩
  rw [← performedSaid, ← ingested, done]

end EpskcCommissioner.LogRingTasks

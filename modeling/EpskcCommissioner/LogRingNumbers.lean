import EpskcCommissioner.LogRingDevice
import EpskcCommissioner.LogRingSlots

/-! A boot's lines are numbered one by one from 1, whatever the calls are, and the cache
lines that a call pushes out are those of all the lines it committed. -/
namespace EpskcCommissioner.LogRingNumbers
open LogRing LogRingDevice

theorem slotIndexOf (n : Nat) : (slotIndex (UInt32.ofNat (n + 1))).val = n % 1024 := by
  unfold slotIndex
  rw [UInt32.ofNat_add]
  simp

theorem slotIndexApart {n k : Nat} (lt : n < k) (near : k < n + 1024) :
    slotIndex (UInt32.ofNat (n + 1)) ≠ slotIndex (UInt32.ofNat (k + 1)) := by
  intro same
  have := congrArg Fin.val same
  rw [slotIndexOf, slotIndexOf] at this
  omega

/- The lines have the numbers after `n`. -/
def Numbered (n : Nat) (commits : List Commit) : Prop :=
  ∀ k c, commits[k]? = some c → c.seq = UInt32.ofNat (n + k + 1)

/- A critical section that starts with `n` lines numbers its own and counts them. -/
structure Counts (n : Nat) (ram : Ram) (done : Ram × List Commit) : Prop where
  numbered : Numbered n done.2
  latest : done.1.latest = UInt32.ofNat (n + done.2.length)
  cur : done.1.cur = ram.cur
  prev : done.1.prev = ram.prev
  prevLatest : done.1.prevLatest = ram.prevLatest

theorem countsNone {n : Nat} {ram after : Ram} (latest : after.latest = UInt32.ofNat n)
    (cur : after.cur = ram.cur) (prev : after.prev = ram.prev)
    (prevLatest : after.prevLatest = ram.prevLatest) : Counts n ram (after,[]) :=
  ⟨nofun,latest,cur,prev,prevLatest⟩

theorem countsCons {n : Nat} (ram : Ram) {next : Ram} {c : Commit} {done : Ram × List Commit}
    (seq : c.seq = UInt32.ofNat (n + 1)) (cur : next.cur = ram.cur) (prev : next.prev = ram.prev)
    (prevLatest : next.prevLatest = ram.prevLatest) (rest : Counts (n + 1) next done) :
    Counts n ram (done.1,c :: done.2) := by
  refine ⟨fun k d found => ?_,?_,rest.cur.trans cur,rest.prev.trans prev,rest.prevLatest.trans prevLatest⟩
  · cases k with
    | zero =>
      cases Option.some.inj found
      exact seq
    | succ k =>
      rw [rest.numbered k d found]
      exact congrArg UInt32.ofNat (by omega)
  · rw [rest.latest, List.length_cons]
    exact congrArg UInt32.ofNat (by omega)

theorem commitCounts {n : Nat} (p : Option (Fin 4)) (segment : List UInt8) (nowMs : UInt32)
    {ram after : Ram} {commits : List Commit} (latest : ram.latest = UInt32.ofNat n)
    (rest : (commitLocked p segment nowMs ram).1.latest = UInt32.ofNat (n + 1) →
      Counts (n + 1) (commitLocked p segment nowMs ram).1 (after,commits)) :
    Counts n ram (after,(commitLocked p segment nowMs ram).2 :: commits) := by
  have next : ram.latest + 1 = UInt32.ofNat (n + 1) := by
    rw [latest]
    exact (UInt32.ofNat_add n 1).symm
  refine countsCons ram next ?_ ?_ ?_ (rest next) <;> cases p <;> rfl

theorem claimCounts {n : Nat} {ram : Ram} (task : Nat) (nowMs : UInt32)
    (latest : ram.latest = UInt32.ofNat n) :
    Counts n ram (claimPending task nowMs ram).2 := by
  unfold claimPending
  split
  · exact countsNone latest rfl rfl rfl
  · have stays : ({ram with victim := ram.victim + 1} : Ram).latest = UInt32.ofNat n := latest
    obtain ⟨numbered,after,cur,prev,prevLatest⟩ := commitCounts (some (victimOf ram)) [] nowMs stays
      (fun after => countsNone after rfl rfl rfl)
    exact ⟨numbered,after,cur,prev,prevLatest⟩

theorem freePendingSame (p : Option (Fin 4)) (ram : Ram) :
    (freePending p ram).latest = ram.latest ∧ (freePending p ram).cur = ram.cur ∧
    (freePending p ram).prev = ram.prev ∧ (freePending p ram).prevLatest = ram.prevLatest := by
  cases p <;> exact ⟨rfl,rfl,rfl,rfl⟩

theorem ingestCounts (task : Nat) (nowMs : UInt32) (text : List UInt8) :
    ∀ (n : Nat) (segment : List UInt8) (p : Option (Fin 4)) (ram : Ram),
      ram.latest = UInt32.ofNat n → Counts n ram (ingestLoop task nowMs text segment p ram) := by
  induction text with
  | nil =>
    intro n segment p ram latest
    unfold ingestLoop
    split
    · exact countsNone latest rfl rfl rfl
    · cases p with
      | some k => exact countsNone latest rfl rfl rfl
      | none =>
        obtain ⟨numbered,after,cur,prev,prevLatest⟩ := claimCounts task nowMs latest
        exact ⟨numbered,after,cur,prev,prevLatest⟩
  | cons b rest ih =>
    intro n segment p ram latest
    unfold ingestLoop
    split
    · exact ih n (segment ++ [b]) p ram latest
    · split
      · exact commitCounts p segment nowMs latest (fun after => ih (n + 1) [] none _ after)
      · obtain ⟨sameLatest,sameCur,samePrev,samePrevLatest⟩ := freePendingSame p ram
        obtain ⟨numbered,after,cur,prev,prevLatest⟩ :=
          ih n [] none (freePending p ram) (sameLatest.trans latest)
        exact ⟨numbered,after,cur.trans sameCur,prev.trans samePrev,prevLatest.trans samePrevLatest⟩

theorem executeCounts {n : Nat} {ram : Ram} (call : Call) (nowMs : UInt32)
    (latest : ram.latest = UInt32.ofNat n) : Counts n ram (execute call nowMs ram) := by
  cases call with
  | ingest task text =>
    change Counts n ram (ingest task nowMs text ram)
    unfold ingest
    split
    · exact countsNone latest rfl rfl rfl
    · exact ingestCounts task nowMs text n [] _ ram latest
  | logRingLine text =>
    change Counts n ram (logRingLine nowMs text ram)
    unfold logRingLine
    split
    · exact countsNone latest rfl rfl rfl
    · exact commitCounts none text nowMs latest (fun after => countsNone after rfl rfl rfl)

theorem seqNonzero {n : Nat} (few : n + 1 < UInt32.size) : UInt32.ofNat (n + 1) ≠ 0 := by
  intro zero
  have := congrArg UInt32.toNat zero
  rw [UInt32.toNat_ofNat_of_lt' few] at this
  exact absurd this (Nat.succ_ne_zero n)

theorem noteFrom (commits : List Commit) (first last : UInt32) (noted : first ≠ 0) :
    commits.foldl (fun written c => (if written.1 = 0 then c.seq else written.1,c.seq)) (first,last) =
      (first,(commits.getLast?.map Commit.seq).getD last) := by
  induction commits generalizing last with
  | nil => rfl
  | cons c rest ih =>
    rw [List.foldl_cons, if_neg noted, ih, List.getLast?_cons]
    cases rest.getLast? <;> rfl

theorem noteNumbered {n : Nat} {commits : List Commit} (numbered : Numbered n commits)
    (some : commits ≠ []) (few : n + commits.length < UInt32.size) :
    noteWritten commits = (UInt32.ofNat (n + 1),UInt32.ofNat (n + commits.length)) := by
  cases commits with
  | nil => contradiction
  | cons c rest =>
    have first : c.seq = UInt32.ofNat (n + 1) := numbered 0 c rfl
    rw [List.length_cons] at few
    have nonzero : c.seq ≠ 0 := first ▸ seqNonzero (by omega)
    unfold noteWritten
    rw [List.foldl_cons, if_pos rfl, noteFrom rest c.seq c.seq nonzero, first]
    refine congrArg _ ?_
    cases found : rest.getLast? with
    | none =>
      rw [List.getLast?_eq_none_iff.mp found]
      exact congrArg UInt32.ofNat rfl
    | some d =>
      have last : (c :: rest)[rest.length]? = Option.some d := by
        rw [List.getLast?_eq_getElem?] at found
        have : rest.length ≠ 0 := by
          intro empty
          rw [List.length_eq_zero_iff.mp empty] at found
          contradiction
        obtain ⟨m,length⟩ := Nat.exists_eq_succ_of_ne_zero this
        rw [length, List.getElem?_cons_succ]
        rwa [length] at found
      exact numbered _ d last

theorem writeBackCovers {n k : Nat} {h : Half} {commits : List Commit} (numbered : Numbered n commits)
    (few : n + commits.length < UInt32.size) (own : k < commits.length) :
    ∀ x ∈ slotLines h (slotIndex (UInt32.ofNat (n + k + 1))),
      x ∈ writeBackLines h (noteWritten commits).1 (noteWritten commits).2 := by
  intro x mem
  have some : commits ≠ [] := List.ne_nil_of_length_pos (by omega)
  rw [noteNumbered numbered some few]
  unfold writeBackLines
  rw [if_neg (seqNonzero (by omega))]
  have distance : (UInt32.ofNat (n + commits.length) - UInt32.ofNat (n + 1)).toNat = commits.length - 1 := by
    rw [← UInt32.ofNat_sub (by omega), UInt32.toNat_ofNat_of_lt' (by omega)]
    omega
  dsimp only
  rw [distance]
  split
  · exact List.mem_flatMap.mpr ⟨_,List.mem_finRange _,mem⟩
  · refine List.mem_flatMap.mpr ⟨k,List.mem_range.mpr (by omega),?_⟩
    rwa [← UInt32.ofNat_add, show n + 1 + k = n + k + 1 by omega]

end EpskcCommissioner.LogRingNumbers

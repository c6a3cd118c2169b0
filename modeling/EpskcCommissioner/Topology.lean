import EpskcCommissioner.FirstOfEach
import EpskcCommissioner.Machine
import Mathlib.Algebra.BigOperators.Group.List.Basic
import Mathlib.Algebra.GroupWithZero.Nat
import Mathlib.Data.List.Nodup
import Mathlib.Data.List.Perm.Subperm

/-! The topology scan: what OpenThread reports of the routers is added up in a snapshot, which
a refresh begins, a last report ends and a reset clears, in any order. -/
namespace EpskcCommissioner.Topology
open FirstOfEach

/- `otError` -/
abbrev OtError := Nat
def otErrorNone : OtError := 0
def otErrorPending : OtError := 36

/- `otMeshDiagChildInfo` -/
structure ChildInfo where
  isBorderRouter : Bool
  isThisDevice : Bool
  deriving DecidableEq, Repr

/- `otMeshDiagRouterInfo`; the iterator is NULL where there is no child table. -/
structure RouterInfo where
  routerId : UInt8
  isBorderRouter : Bool
  isThisDevice : Bool
  children : Option (List ChildInfo)
  deriving DecidableEq, Repr

/- `thread_topology_status_t` -/
inductive Status where
  | never | scanning | complete | partially | failed
  deriving DecidableEq, Repr

/- `thread_topology_t` -/
structure Snapshot where
  status : Status
  routersSeen : UInt16
  childrenSeen : UInt16
  borderRoutersSeen : UInt16
  includesSelf : Bool
  completedAtMs : UInt64
  deriving DecidableEq, Repr

def Snapshot.clear (status : Status) : Snapshot := ⟨status,0,0,0,false,0⟩

structure Scan where
  topology : Snapshot
  routerIds : BitVec 64
  missingChildTable : Bool
  deriving DecidableEq

def topologyReset (status : Status) : Scan := ⟨Snapshot.clear status,0,false⟩

def childLoop : List ChildInfo → (children borderRouters : UInt16) → (isSelf : Bool) → UInt16 × UInt16 × Bool
  | [], children, borderRouters, isSelf => (children,borderRouters,isSelf)
  | child :: rest, children, borderRouters, isSelf =>
    childLoop rest (children + 1) (borderRouters + if child.isBorderRouter then 1 else 0) (isSelf || child.isThisDevice)

/- What a report adds, where its router has not been seen. -/
def addRouter (router : RouterInfo) (s : Scan) : Scan :=
  if s.topology.status = .scanning ∧ router.routerId < 64 then
    let bit := 1#64 <<< router.routerId.toNat
    if s.routerIds &&& bit = 0 then
      let (children,childBorderRouters,childIsSelf) := childLoop (router.children.getD []) 0 0 false
      {topology := {s.topology with
          routersSeen := s.topology.routersSeen + 1
          childrenSeen := s.topology.childrenSeen + children
          borderRoutersSeen := s.topology.borderRoutersSeen + ((if router.isBorderRouter then 1 else 0) + childBorderRouters)
          includesSelf := s.topology.includesSelf || router.isThisDevice || childIsSelf}
       routerIds := s.routerIds ||| bit
       missingChildTable := s.missingChildTable || router.children.isNone}
    else s
  else s

def finish (error : OtError) (us : UInt64) (s : Scan) : Scan :=
  if s.topology.status = .scanning ∧ error ≠ otErrorPending then
    let sawAny := s.topology.routersSeen ≠ 0 ∨ s.topology.childrenSeen ≠ 0
    let status :=
      if error = otErrorNone ∧ s.missingChildTable = false then .complete
      else if sawAny then .partially
      else .failed
    {s with topology := {s.topology with status := status, completedAtMs := us / 1000}}
  else s

def topologyDiscoverCb (error : OtError) (router : Option RouterInfo) (us : UInt64) (s : Scan) : Scan :=
  finish error us (match router with
    | none => s
    | some router => addRouter router s)

/- The first half of `thread_topology_refresh`, and whether it goes on to the query. -/
def claimScan (s : Scan) : Scan × Bool :=
  if s.topology.status = .scanning then (s,false) else (topologyReset .scanning,true)

def queryAnswered (error : OtError) (s : Scan) : Scan := if error ≠ otErrorNone then topologyReset .failed else s

/- The routers that count: the first report of each that the 64 bits have room for. -/
def counted (reports : List RouterInfo) : List RouterInfo :=
  firsts RouterInfo.routerId (reports.filter fun router => router.routerId < 64)

def childrenOf (router : RouterInfo) : Nat := (router.children.getD []).length

def borderRoutersOf (router : RouterInfo) : Nat :=
  (if router.isBorderRouter then 1 else 0) + (router.children.getD []).countP ChildInfo.isBorderRouter

def isSelf (router : RouterInfo) : Bool :=
  router.isThisDevice || (router.children.getD []).any ChildInfo.isThisDevice

/- The statics are those of some routers, each counter in its 16 bits. -/
structure Adds (routers : List RouterInfo) (s : Scan) : Prop where
  seen : s.topology.routersSeen = UInt16.ofNat routers.length
  children : s.topology.childrenSeen = UInt16.ofNat (routers.map childrenOf).sum
  borderRouters : s.topology.borderRoutersSeen = UInt16.ofNat (routers.map borderRoutersOf).sum
  self : s.topology.includesSelf = routers.any isSelf
  ids : ∀ id : UInt8, id < 64 → s.routerIds.getLsbD id.toNat = decide (id ∈ routers.map RouterInfo.routerId)
  missing : s.missingChildTable = routers.any (fun router => router.children.isNone)

def finalStatus (error : OtError) (routers : List RouterInfo) : Status :=
  if error = otErrorNone ∧ ∀ router ∈ routers, router.children ≠ none then .complete
  else if routers ≠ [] ∨ (routers.map childrenOf).sum ≠ 0 then .partially
  else .failed

variable {reports routers rest : List RouterInfo} {router : RouterInfo} {s : Scan} {error : OtError} {us : UInt64}

theorem childLoopCounts (table : List ChildInfo) (children borderRouters : UInt16) (self : Bool) :
    childLoop table children borderRouters self = (children + UInt16.ofNat table.length,
      borderRouters + UInt16.ofNat (table.countP ChildInfo.isBorderRouter),self || table.any ChildInfo.isThisDevice) := by
  induction table generalizing children borderRouters self with
  | nil => simp [childLoop]
  | cons child table ih =>
    rw [childLoop, ih, List.length_cons, List.countP_cons, List.any_cons, UInt16.ofNat_add, UInt16.ofNat_add,
      Bool.or_assoc]
    cases child.isBorderRouter
    · simp [UInt16.add_assoc, UInt16.add_comm]
    · simp [UInt16.add_assoc, UInt16.add_comm]

theorem countedSnoc (small : router.routerId < 64) : reports.filter (fun r => r.routerId < 64) ++ [router] =
    (reports ++ [router]).filter fun r => r.routerId < 64 := by
  rw [List.filter_append, List.filter_cons_of_pos (by simpa using small), List.filter_nil]

theorem countedLarge (large : ¬ router.routerId < 64) : counted (reports ++ [router]) = counted reports := by
  unfold counted
  rw [List.filter_append, List.filter_cons_of_neg (by simpa using large), List.filter_nil, List.append_nil]

theorem countedSeen (small : router.routerId < 64) (seen : router.routerId ∈ (counted reports).map RouterInfo.routerId) :
    counted (reports ++ [router]) = counted reports := by
  unfold counted at seen ⊢
  rw [← countedSnoc small, firstsSeen ((firstsKeys _).mp seen)]

theorem countedNew (small : router.routerId < 64) (new : router.routerId ∉ (counted reports).map RouterInfo.routerId) :
    counted (reports ++ [router]) = counted reports ++ [router] := by
  unfold counted at new ⊢
  rw [← countedSnoc small, firstsNew (fun seen => new ((firstsKeys _).mpr seen))]

theorem bitClear (ids : BitVec 64) {k : Nat} (inside : k < 64) :
    ids &&& 1#64 <<< k = 0 ↔ ids.getLsbD k = false := by
  constructor
  · intro clear
    have bit := congrArg (fun v : BitVec 64 => v.getLsbD k) clear
    simpa [inside] using bit
  · intro clear
    ext i bound
    by_cases same : i = k
    · subst same
      rw [BitVec.getLsbD_eq_getElem bound] at clear
      rw [BitVec.getElem_and, clear, Bool.false_and]
      simp
    · have apart : ((1#64 <<< k : BitVec 64)[i]) = false := by
        rw [BitVec.getElem_shiftLeft]
        by_cases under : i < k
        · simp [under]
        · have above : i - k ≠ 0 := by omega
          simp [above]
      rw [BitVec.getElem_and, apart, Bool.and_false]
      simp

theorem bitSet (ids : BitVec 64) {k i : Nat} (inside : i < 64) :
    (ids ||| 1#64 <<< k).getLsbD i = (ids.getLsbD i || decide (i = k)) := by
  rw [BitVec.getLsbD_or, BitVec.getLsbD_shiftLeft]
  congr 1
  by_cases same : i = k
  · subst same
    simp [inside]
  · by_cases under : i < k
    · simp [under, same]
    · have above : i - k ≠ 0 := by omega
      simp [above, same]

theorem ofNatSnoc (xs : List Nat) (x : Nat) : UInt16.ofNat (xs ++ [x]).sum = UInt16.ofNat xs.sum + UInt16.ofNat x := by
  rw [List.sum_append, List.sum_singleton, UInt16.ofNat_add]

theorem addsNothing (status : Status) : Adds [] (topologyReset status) := by
  refine ⟨rfl,rfl,rfl,rfl,fun id _ => ?_,rfl⟩
  exact BitVec.getLsbD_zero

theorem addRouterAdds (adds : Adds (counted reports) s) (scanning : s.topology.status = .scanning) (router : RouterInfo) :
    Adds (counted (reports ++ [router])) (addRouter router s) ∧ (addRouter router s).topology.status = .scanning := by
  unfold addRouter
  by_cases small : router.routerId < 64
  swap
  · rw [if_neg (fun both => small both.2), countedLarge small]
    exact ⟨adds,scanning⟩
  rw [if_pos ⟨scanning,small⟩]
  have inside : router.routerId.toNat < 64 := UInt8.lt_iff_toNat_lt.mp small
  dsimp only
  by_cases new : router.routerId ∈ (counted reports).map RouterInfo.routerId
  · rw [if_neg, countedSeen small new]
    · exact ⟨adds,scanning⟩
    · rw [bitClear _ inside, adds.ids _ small, decide_eq_true new]
      exact Bool.true_eq_false.mp
  · rw [if_pos ((bitClear _ inside).mpr ((adds.ids _ small).trans (decide_eq_false new))), countedNew small new, childLoopCounts]
    obtain ⟨seen,children,borderRouters,self,ids,missing⟩ := adds
    refine ⟨⟨?_,?_,?_,?_,?_,?_⟩,scanning⟩
    · dsimp only
      rw [seen, List.length_append, UInt16.ofNat_add]
      rfl
    · dsimp only
      rw [children, List.map_append, List.map_singleton, ofNatSnoc]
      simp [childrenOf]
    · dsimp only
      rw [borderRouters, List.map_append, List.map_singleton, ofNatSnoc, borderRoutersOf, UInt16.ofNat_add]
      cases router.isBorderRouter <;> simp
    · dsimp only
      rw [self, List.any_append, List.any_cons, List.any_nil, Bool.or_false, isSelf, Bool.or_assoc]
      simp
    · intro id under
      dsimp only
      rw [bitSet _ (UInt8.lt_iff_toNat_lt.mp under), ids id under, List.map_append, List.map_singleton]
      simp [UInt8.toNat_inj]
    · dsimp only
      rw [missing, List.any_append, List.any_cons, List.any_nil, Bool.or_false]

theorem countedFew (reports : List RouterInfo) : (counted reports).length ≤ 64 := by
  have apart : ((counted reports).map fun router => router.routerId.toNat).Nodup := by
    have ids : ((counted reports).map RouterInfo.routerId).Nodup := firstsNodup
    rw [show (fun router : RouterInfo => router.routerId.toNat) = UInt8.toNat ∘ RouterInfo.routerId from rfl, ← List.map_map]
    exact ids.map fun _ _ => UInt8.toNat_inj.mp
  have small : (counted reports).map (fun router => router.routerId.toNat) ⊆ List.range 64 := by
    intro k mem
    obtain ⟨router,listed,same⟩ := List.mem_map.mp mem
    have key : router.routerId ∈ (counted reports).map RouterInfo.routerId := List.mem_map_of_mem listed
    obtain ⟨other,kept,equal⟩ := List.mem_map.mp ((firstsKeys _).mp key)
    have under : other.routerId < 64 := by simpa using (List.mem_filter.mp kept).2
    rw [List.mem_range, ← same, ← equal]
    exact UInt8.lt_iff_toNat_lt.mp under
  have few := (List.subperm_of_subset apart small).length_le
  rwa [List.length_map, List.length_range] at few

/- The counters tell whether anything was counted, although they are narrow. -/
theorem sawAny (adds : Adds routers s) (few : routers.length ≤ 64) :
    (s.topology.routersSeen ≠ 0 ∨ s.topology.childrenSeen ≠ 0) ↔ (routers ≠ [] ∨ (routers.map childrenOf).sum ≠ 0) := by
  cases routers with
  | nil =>
    rw [adds.seen, adds.children]
    simp
  | cons router routers =>
    have some : s.topology.routersSeen ≠ 0 := by
      rw [adds.seen]
      intro zero
      have none := congrArg UInt16.toNat zero
      rw [UInt16.toNat_ofNat', Nat.mod_eq_of_lt (Nat.lt_of_le_of_lt few (by decide)), List.length_cons] at none
      exact absurd none (Nat.succ_ne_zero _)
    exact ⟨fun _ => .inl (List.cons_ne_nil _ _),fun _ => .inl some⟩

theorem tablesMissing (adds : Adds routers s) :
    s.missingChildTable = false ↔ ∀ router ∈ routers, router.children ≠ none := by
  rw [adds.missing, List.any_eq_false]
  refine forall₂_congr fun router _ => not_congr ?_
  exact Option.isNone_iff_eq_none

theorem finishAdds (adds : Adds routers s) (few : routers.length ≤ 64) (scanning : s.topology.status = .scanning)
    (us : UInt64) : Adds routers (finish error us s) ∧
      (finish error us s).topology.status = if error = otErrorPending then .scanning else finalStatus error routers := by
  unfold finish
  by_cases pending : error = otErrorPending
  · rw [if_neg (fun both => both.2 pending), if_pos pending]
    exact ⟨adds,scanning⟩
  rw [if_pos ⟨scanning,pending⟩, if_neg pending]
  obtain ⟨seen,children,borderRouters,self,ids,missing⟩ := adds
  refine ⟨⟨seen,children,borderRouters,self,ids,missing⟩,?_⟩
  dsimp only
  unfold finalStatus
  simp only [tablesMissing ⟨seen,children,borderRouters,self,ids,missing⟩, sawAny ⟨seen,children,borderRouters,self,ids,missing⟩ few]

theorem reportFrozen (ended : s.topology.status ≠ .scanning) (router : Option RouterInfo) :
    topologyDiscoverCb error router us s = s := by
  have added : (match router with | none => s | some router => addRouter router s) = s := by
    cases router with
    | none => rfl
    | some router => exact if_neg (fun both => ended both.1)
  unfold topologyDiscoverCb
  rw [added]
  exact if_neg (fun both => ended both.1)

end EpskcCommissioner.Topology

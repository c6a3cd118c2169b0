import EpskcCommissioner.Topology
import Mathlib.Data.List.Dedup

/-! Runs of the topology scan: reports, refreshes and resets in any order. What the snapshot
shows is what the scan has been told since it began. -/
namespace EpskcCommissioner.TopologyRuns
open FirstOfEach EpskcCommissioner.Topology

/- `reset` is `topology_reset` where a dataset is replaced or erased, `unready` a refresh
without a stack. A refresh holds OpenThread's lock until its query is answered. -/
inductive Label where
  | report (error : OtError) (router : Option RouterInfo) (us : UInt64)
  | reset
  | unready
  | refresh
  | answer (error : OtError)

/- `reports` is what was reported since the scan began and `final` the error that ended it;
no step depends on them. -/
structure Watched where
  scan : Scan
  querying : Bool
  reports : List RouterInfo
  final : Option OtError

def cleared (status : Status) (w : Watched) : Watched :=
  {w with scan := topologyReset status, reports := [], final := none}

def reported (error : OtError) (router : Option RouterInfo) (us : UInt64) (w : Watched) : Watched :=
  let scan := topologyDiscoverCb error router us w.scan
  if w.scan.topology.status = .scanning then
    {w with scan := scan, reports := w.reports ++ router.toList, final := if error = otErrorPending then none else some error}
  else {w with scan := scan}

def topology : Machine Watched Label where
  start w := w = ⟨topologyReset .never,false,[],none⟩
  step w
    | .report error router us => if w.querying then none else some (reported error router us w)
    | .reset => some (cleared .never w)
    | .unready => some (cleared .failed w)
    | .refresh =>
      if w.querying then none
      else if (claimScan w.scan).2 then
        some {w with scan := (claimScan w.scan).1, querying := true, reports := [], final := none}
      else some w
    | .answer error =>
      if !w.querying then none
      else if error ≠ otErrorNone then some {w with scan := queryAnswered error w.scan, querying := false, reports := [], final := none}
      else some {w with scan := queryAnswered error w.scan, querying := false}

/- A scan, and one that has ended, show what was reported in it. -/
structure Shows (w : Watched) : Prop where
  going : w.scan.topology.status = .scanning → w.final = none
  scanning : w.scan.topology.status = .scanning → Adds (counted w.reports) w.scan
  ended : ∀ error, w.final = some error → Adds (counted w.reports) w.scan ∧
    w.scan.topology.status = finalStatus error (counted w.reports) ∧ error ≠ otErrorPending

variable {w t : Watched} {error : OtError} {router : Option RouterInfo} {us : UInt64}

theorem showsCleared {status : Status} (idle : status ≠ .scanning) (w : Watched) : Shows (cleared status w) :=
  ⟨fun _ => rfl,fun scanning => absurd scanning idle,fun _ none => absurd none nofun⟩

theorem showsClaimed (w : Watched) :
    Shows {w with scan := topologyReset .scanning, querying := true, reports := [], final := none} :=
  ⟨fun _ => rfl,fun _ => addsNothing .scanning,fun _ none => absurd none nofun⟩

theorem reportAdds (adds : Adds (counted w.reports) w.scan) (scanning : w.scan.topology.status = .scanning)
    (error : OtError) (router : Option RouterInfo) (us : UInt64) :
    Adds (counted (w.reports ++ router.toList)) (topologyDiscoverCb error router us w.scan) ∧
    (topologyDiscoverCb error router us w.scan).topology.status =
      if error = otErrorPending then .scanning else finalStatus error (counted (w.reports ++ router.toList)) := by
  unfold topologyDiscoverCb
  cases router with
  | none =>
    rw [Option.toList_none, List.append_nil]
    exact finishAdds adds (countedFew _) scanning us
  | some router =>
    obtain ⟨adds,scanning⟩ := addRouterAdds adds scanning router
    exact finishAdds adds (countedFew _) scanning us

theorem finalStatusEnds (error : OtError) (routers : List RouterInfo) : finalStatus error routers ≠ .scanning := by
  unfold finalStatus
  split
  · nofun
  · split
    · nofun
    · nofun

theorem showsReported (shown : Shows w) (error : OtError) (router : Option RouterInfo) (us : UInt64) :
    Shows (reported error router us w) := by
  unfold reported
  by_cases scanning : w.scan.topology.status = .scanning
  · obtain ⟨adds,status⟩ := reportAdds (shown.scanning scanning) scanning error router us
    rw [if_pos scanning]
    by_cases pending : error = otErrorPending
    · rw [if_pos pending] at status ⊢
      exact ⟨fun _ => rfl,fun _ => adds,fun _ none => absurd none nofun⟩
    · rw [if_neg pending] at status ⊢
      have ended : ∀ p : Prop, (topologyDiscoverCb error router us w.scan).topology.status = .scanning → p :=
        fun _ still => absurd (status.symm.trans still) (finalStatusEnds _ _)
      refine ⟨ended _,ended _,fun last same => ?_⟩
      cases Option.some.inj same
      exact ⟨adds,status,pending⟩
  · rw [if_neg scanning, reportFrozen scanning]
    exact shown

theorem showsStep {l : Label} (shown : Shows w) (stepped : topology.step w l = some t) : Shows t := by
  cases l with
  | report error router us =>
    dsimp only [topology] at stepped
    split at stepped
    · cases stepped
    · cases Option.some.inj stepped
      exact showsReported shown error router us
  | reset =>
    cases Option.some.inj stepped
    exact showsCleared Status.noConfusion w
  | unready =>
    cases Option.some.inj stepped
    exact showsCleared Status.noConfusion w
  | refresh =>
    dsimp only [topology] at stepped
    split at stepped
    · cases stepped
    · by_cases scanning : w.scan.topology.status = .scanning
      · rw [claimScan, if_pos scanning, if_neg Bool.false_ne_true] at stepped
        cases Option.some.inj stepped
        exact shown
      · rw [claimScan, if_neg scanning, if_pos rfl] at stepped
        cases Option.some.inj stepped
        exact showsClaimed w
  | answer error =>
    dsimp only [topology] at stepped
    split at stepped
    · cases stepped
    · split at stepped
      · rename_i failed
        rw [queryAnswered, if_pos failed] at stepped
        cases Option.some.inj stepped
        exact ⟨fun _ => rfl,nofun,fun _ none => absurd none nofun⟩
      · rename_i began
        rw [queryAnswered, if_neg began] at stepped
        cases Option.some.inj stepped
        exact ⟨shown.going,shown.scanning,shown.ended⟩

theorem showsAlways (reachable : topology.Reachable w) : Shows w := by
  refine reachableInvariant Shows ?_ ?_ reachable
  · rintro s rfl
    exact ⟨fun _ => rfl,nofun,fun _ none => absurd none nofun⟩
  · intro s l t shown stepped
    exact showsStep shown stepped

/- The counters as numbers, where the sums fit in 16 bits. -/
structure Counts (reports : List RouterInfo) (s : Snapshot) : Prop where
  routers : s.routersSeen.toNat = ((reports.map RouterInfo.routerId).filter fun id => id < 64).dedup.length
  children : ((counted reports).map childrenOf).sum < 65536 → s.childrenSeen.toNat = ((counted reports).map childrenOf).sum
  borderRouters : ((counted reports).map borderRoutersOf).sum < 65536 →
    s.borderRoutersSeen.toNat = ((counted reports).map borderRoutersOf).sum
  self : s.includesSelf = (counted reports).any isSelf

theorem countedIds (reports : List RouterInfo) :
    (counted reports).length = ((reports.map RouterInfo.routerId).filter fun id => id < 64).dedup.length := by
  have apart : ((counted reports).map RouterInfo.routerId).Nodup := firstsNodup
  have same : ((counted reports).map RouterInfo.routerId).Perm ((reports.map RouterInfo.routerId).filter fun id => id < 64).dedup := by
    refine (List.perm_ext_iff_of_nodup apart (List.nodup_dedup _)).mpr fun id => ?_
    rw [List.mem_dedup, List.filter_map, counted, firstsKeys]
    rfl
  rw [← same.length_eq, List.length_map]

theorem addsCounts {reports : List RouterInfo} {s : Scan} (adds : Adds (counted reports) s) : Counts reports s.topology := by
  obtain ⟨seen,children,borderRouters,self,_,_⟩ := adds
  refine ⟨?_,fun fits => ?_,fun fits => ?_,self⟩
  · have few : (counted reports).length < 65536 := Nat.lt_of_le_of_lt (countedFew reports) (by decide)
    rw [seen, UInt16.toNat_ofNat', Nat.mod_eq_of_lt few, countedIds]
  · rw [children, UInt16.toNat_ofNat', Nat.mod_eq_of_lt fits]
  · rw [borderRouters, UInt16.toNat_ofNat', Nat.mod_eq_of_lt fits]

def timeless (s : Scan) : Scan := {s with topology := {s.topology with completedAtMs := 0}}

theorem addsTimeless {routers others : List RouterInfo} {s r : Scan} (perm : routers.Perm others) (adds : Adds routers s)
    (also : Adds others r) (status : s.topology.status = r.topology.status) : timeless s = timeless r := by
  have ids : s.routerIds = r.routerIds := by
    ext i inside
    have small : (UInt8.ofNat i).toNat = i := UInt8.toNat_ofNat_of_lt' (Nat.lt_trans inside (by decide))
    have under : UInt8.ofNat i < 64 := UInt8.lt_iff_toNat_lt.mpr (small.symm ▸ inside)
    have left := adds.ids _ under
    have right := also.ids _ under
    have mem : UInt8.ofNat i ∈ routers.map RouterInfo.routerId ↔ UInt8.ofNat i ∈ others.map RouterInfo.routerId :=
      (perm.map _).mem_iff
    rw [small] at left right
    rw [← BitVec.getLsbD_eq_getElem inside, ← BitVec.getLsbD_eq_getElem inside, left, right]
    exact decide_eq_decide.mpr mem
  have missing : s.missingChildTable = r.missingChildTable := by rw [adds.missing, also.missing, perm.any_eq]
  have seen : s.topology.routersSeen = r.topology.routersSeen := by rw [adds.seen, also.seen, perm.length_eq]
  have children : s.topology.childrenSeen = r.topology.childrenSeen := by
    rw [adds.children, also.children, (perm.map _).sum_eq]
  have borderRouters : s.topology.borderRoutersSeen = r.topology.borderRoutersSeen := by
    rw [adds.borderRouters, also.borderRouters, (perm.map _).sum_eq]
  have self : s.topology.includesSelf = r.topology.includesSelf := by rw [adds.self, also.self, perm.any_eq]
  unfold timeless
  dsimp only
  rw [ids, missing, seen, children, borderRouters, self, status]

theorem finalStatusPerm {routers others : List RouterInfo} (perm : routers.Perm others) (error : OtError) :
    finalStatus error routers = finalStatus error others := by
  have empty : routers ≠ [] ↔ others ≠ [] := not_congr ⟨fun none => (none ▸ perm).nil_eq.symm,fun none => (none ▸ perm.symm).nil_eq.symm⟩
  unfold finalStatus
  simp only [perm.mem_iff, (perm.map childrenOf).sum_eq, empty]

theorem countedPerm {reports others : List RouterInfo} (perm : reports.Perm others)
    (apart : (reports.map RouterInfo.routerId).Nodup) : (counted reports).Perm (counted others) := by
  have kept : ∀ routers : List RouterInfo, (routers.map RouterInfo.routerId).Nodup →
      counted routers = routers.filter fun router => router.routerId < 64 := by
    intro routers apart
    exact firstsAll (apart.sublist (List.filter_sublist.map _))
  rw [kept reports apart, kept others ((perm.map _).nodup_iff.mp apart)]
  exact perm.filter _

def Ends : Label → Prop
  | .report error _ _ => error ≠ otErrorPending
  | .reset | .unready => True
  | .refresh | .answer _ => False

theorem endsScan {l : Label} (reachable : topology.Reachable w) (ends : Ends l) (stepped : topology.step w l = some t) :
    t.scan.topology.status ≠ .scanning := by
  cases l with
  | report error router us =>
    dsimp only [topology] at stepped
    split at stepped
    · cases stepped
    · cases Option.some.inj stepped
      unfold reported
      by_cases scanning : w.scan.topology.status = .scanning
      · obtain ⟨_,status⟩ := reportAdds ((showsAlways reachable).scanning scanning) scanning error router us
        rw [if_pos scanning]
        rw [if_neg ends] at status
        exact fun still => finalStatusEnds _ _ (status.symm.trans still)
      · rw [if_neg scanning, reportFrozen scanning]
        exact scanning
  | reset =>
    cases Option.some.inj stepped
    exact Status.noConfusion
  | unready =>
    cases Option.some.inj stepped
    exact Status.noConfusion
  | refresh => exact ends.elim
  | answer error => exact ends.elim

theorem idleStep {l : Label} (idle : w.scan.topology.status ≠ .scanning) (noRefresh : l ≠ .refresh)
    (stepped : topology.step w l = some t) : t.scan.topology.status ≠ .scanning := by
  cases l with
  | report error router us =>
    dsimp only [topology] at stepped
    split at stepped
    · cases stepped
    · cases Option.some.inj stepped
      unfold reported
      rw [if_neg idle, reportFrozen idle]
      exact idle
  | reset =>
    cases Option.some.inj stepped
    exact Status.noConfusion
  | unready =>
    cases Option.some.inj stepped
    exact Status.noConfusion
  | refresh => exact absurd rfl noRefresh
  | answer error =>
    dsimp only [topology] at stepped
    split at stepped
    · cases stepped
    · split at stepped
      · rename_i failed
        rw [queryAnswered, if_pos failed] at stepped
        cases Option.some.inj stepped
        exact Status.noConfusion
      · rename_i began
        rw [queryAnswered, if_neg began] at stepped
        cases Option.some.inj stepped
        exact idle

theorem idleRun {labels : List Label} (idle : w.scan.topology.status ≠ .scanning) (noRefresh : ∀ l ∈ labels, l ≠ .refresh)
    (ran : topology.run w labels = some t) : t.scan.topology.status ≠ .scanning := by
  induction labels generalizing w with
  | nil =>
    cases Option.some.inj ran
    exact idle
  | cons l labels ih =>
    obtain ⟨first,noRefresh⟩ := List.forall_mem_cons.mp noRefresh
    obtain ⟨next,stepped,ran⟩ := Option.bind_eq_some_iff.mp ran
    exact ih (idleStep idle first stepped) noRefresh ran

/- What holds of every run: what the snapshot of a scan shows, how a scan ends, that an ended one
stays as it is, and that reports of different routers may come in any order. -/
structure Holds (w : Watched) : Prop where
  scanning : w.scan.topology.status = .scanning → Counts w.reports w.scan.topology
  ended : ∀ error, w.final = some error → error ≠ otErrorPending ∧ Counts w.reports w.scan.topology ∧
    w.scan.topology.status = finalStatus error (counted w.reports)
  frozen : ∀ l next labels t, Ends l → topology.step w l = some next → (∀ later ∈ labels, later ≠ .refresh) →
    topology.run next labels = some t → ∀ error router us, topologyDiscoverCb error router us t.scan = t.scan
  ordered : ∀ v, topology.Reachable v → w.reports.Perm v.reports → (w.reports.map RouterInfo.routerId).Nodup →
    (w.scan.topology.status = .scanning ∧ v.scan.topology.status = .scanning) ∨
      (w.final ≠ none ∧ w.final = v.final) → timeless w.scan = timeless v.scan

theorem holdsAlways (w : Watched) (reachable : topology.Reachable w) : Holds w := by
  have shown := showsAlways reachable
  refine ⟨fun scanning => addsCounts (shown.scanning scanning),fun error last => ?_,?_,?_⟩
  · obtain ⟨adds,status,some⟩ := shown.ended error last
    exact ⟨some,addsCounts adds,status⟩
  · intro l next labels t ends stepped noRefresh ran error router us
    exact reportFrozen (idleRun (endsScan reachable ends stepped) noRefresh ran) router
  · intro v also perm apart
    have other := showsAlways also
    have same := countedPerm perm apart
    rintro (⟨scanning,too⟩ | ⟨last,equal⟩)
    · exact addsTimeless same (shown.scanning scanning) (other.scanning too) (scanning.trans too.symm)
    · obtain ⟨error,last⟩ := Option.ne_none_iff_exists'.mp last
      obtain ⟨adds,status,_⟩ := shown.ended error last
      obtain ⟨more,result,_⟩ := other.ended error (equal.symm.trans last)
      refine addsTimeless same adds more ?_
      rw [status, result, finalStatusPerm same]

def smallScan : List Label :=
  [.refresh,.answer otErrorNone,.report otErrorPending (some ⟨3,true,false,some [⟨false,true⟩]⟩) 5000,.report otErrorNone none 7000]

theorem holdsSmallScan : ∃ w, topology.run ⟨topologyReset .never,false,[],none⟩ smallScan = some w ∧
    w.scan.topology = ⟨.complete,1,1,1,true,7⟩ ∧ Holds w :=
  ⟨_,rfl,rfl,holdsAlways _ (reachableRun (.start rfl) (rfl : topology.run _ smallScan = some _))⟩

end EpskcCommissioner.TopologyRuns

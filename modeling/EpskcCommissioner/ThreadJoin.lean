import EpskcCommissioner.WifiDriver

/-! `thread_join`: a new active dataset replaces the stored one, and a failure puts the
old one back. It holds the OpenThread lock from the first call that changes anything
to the last, so its calls follow each other. -/
namespace EpskcCommissioner.ThreadJoin
open WifiDriver

def otOperationalDatasetMaxLength : Nat := 254

/- `otOperationalDatasetTlvs` with something in it. -/
structure Dataset where
  tlvs : List UInt8
  some : tlvs ≠ []
  fits : tlvs.length ≤ otOperationalDatasetMaxLength
  deriving DecidableEq, Repr

/- The flags of `otOperationalDatasetComponents` that a complete dataset needs. -/
structure Components where
  activeTimestamp : Bool
  channel : Bool
  channelMask : Bool
  extendedPanId : Bool
  meshLocalPrefix : Bool
  networkKey : Bool
  networkName : Bool
  panId : Bool
  pskc : Bool
  securityPolicy : Bool
  deriving DecidableEq, Repr

def Components.complete (c : Components) : Bool :=
  c.activeTimestamp && c.channel && c.channelMask && c.extendedPanId && c.meshLocalPrefix &&
  c.networkKey && c.networkName && c.panId && c.pskc && c.securityPolicy

/- `thread_topology_status_t` -/
inductive TopologyStatus where
  | never | scanning | complete | incomplete | failed
  deriving DecidableEq, Repr

/- `diagnosing`: a mesh diagnostic query is under way. -/
structure Thread where
  ready : Bool
  stored : Option Dataset
  enabled : Bool
  ip6Enabled : Bool
  diagnosing : Bool
  topology : TopologyStatus
  deriving DecidableEq, Repr

/- What `esp_openthread_auto_start` returned, and how far it came when it failed. -/
structure Start where
  err : EspErr
  persisted : Bool
  enabled : Bool
  ip6Enabled : Bool
  deriving DecidableEq, Repr

/- The outcomes of the OpenThread calls. The two erasures are the one before the
candidate is applied and the one that removes it again. -/
structure Calls where
  parse : Dataset → Option Components
  erased : Bool
  start : Start
  restore : Start
  cleaned : Bool

/- `otDatasetGetActiveTlvs`, with the length check on its result. -/
def previous (s : Thread) : Option Dataset := s.stored.filter (fun ds => 0 < ds.tlvs.length)

/- `otMeshDiagCancel` and `topology_reset`. -/
def forgetTopology (s : Thread) : Thread := {s with diagnosing := false, topology := .never}

def disable (s : Thread) : Thread := {s with enabled := false, ip6Enabled := false}

/- `otInstanceErasePersistentInfo`: a failed one leaves what is stored. -/
def eraseInfo (erased : Bool) (s : Thread) : Thread :=
  if erased then {s with stored := none} else s

def autoStart (o : Start) (ds : Dataset) (s : Thread) : Thread :=
  {s with stored := if o.err = espOk ∨ o.persisted then some ds else s.stored
          enabled := o.err = espOk || o.enabled
          ip6Enabled := o.err = espOk || o.ip6Enabled}

def replace (o : Calls) (ds : Dataset) (s : Thread) : Thread × EspErr :=
  let was := previous s
  let s := eraseInfo o.erased (disable (forgetTopology s))
  if !o.erased then
    match was with
    | some old => (autoStart o.restore old s,espFail)
    | none => (s,espFail)
  else
    let s := autoStart o.start ds s
    if o.start.err = espOk then (s,espOk)
    else
      match was with
      | some old => (autoStart o.restore old s,espFail)
      | none => (eraseInfo o.cleaned (disable s),espFail)

def threadJoin (o : Calls) (tlvs : List UInt8) (s : Thread) : Thread × EspErr :=
  if !s.ready then (s,espFail)
  else if range : tlvs = [] ∨ otOperationalDatasetMaxLength < tlvs.length then (s,espErrInvalidArg)
  else
    have range := not_or.mp range
    let ds : Dataset := ⟨tlvs,range.1,Nat.not_lt.mp range.2⟩
    if (o.parse ds).any Components.complete then replace o ds s else (s,espErrInvalidArg)

/- The length is in range, and the dataset parses and has every component. -/
def Acceptable (o : Calls) (tlvs : List UInt8) : Prop :=
  ∃ ds : Dataset, ds.tlvs = tlvs ∧ (o.parse ds).any Components.complete

/- The calls that put the old state back succeed, where they are made: the old dataset
is started again, or, with none, the candidate is erased. -/
def Mended (o : Calls) (s : Thread) : Prop :=
  s.ready = true →
    match s.stored with
    | some _ => o.restore.err = espOk
    | none => o.erased = true → o.cleaned = true

theorem previousStored (s : Thread) : previous s = s.stored := by
  cases stored : s.stored with
  | none => simp [previous,stored]
  | some ds => simp [previous,stored,List.length_pos_iff,ds.some]

theorem failNotOk : espFail ≠ espOk := by decide

theorem invalidArgNotOk : espErrInvalidArg ≠ espOk := by decide

theorem replaceStored {o : Calls} {ds : Dataset} {s : Thread} (failed : (replace o ds s).2 ≠ espOk)
    (ready : s.ready = true) (mended : Mended o s) : (replace o ds s).1.stored = s.stored := by
  revert failed
  have mended := mended ready
  unfold replace
  rw [previousStored]
  cases erased : o.erased with
  | false =>
    cases stored : s.stored with
    | none => simp [eraseInfo,disable,forgetTopology,stored]
    | some old => simp_all [autoStart]
  | true =>
    by_cases started : o.start.err = espOk
    · simp [started]
    · cases stored : s.stored with
      | none => simp_all [eraseInfo]
      | some old => simp_all [autoStart]

theorem eraseReady (erased : Bool) (s : Thread) : (eraseInfo erased s).ready = s.ready := by
  cases erased <;> rfl

theorem replaceReady (o : Calls) (ds : Dataset) (s : Thread) : (replace o ds s).1.ready = s.ready := by
  unfold replace
  dsimp only
  split
  · split <;> exact eraseReady ..
  · split
    · exact eraseReady ..
    · split
      · exact eraseReady ..
      · exact (eraseReady ..).trans (eraseReady ..)

theorem joinReady (o : Calls) (tlvs : List UInt8) (s : Thread) : (threadJoin o tlvs s).1.ready = s.ready := by
  unfold threadJoin
  split
  · rfl
  · split
    · rfl
    · dsimp only
      split
      · exact replaceReady ..
      · rfl

theorem joinAcceptable {o : Calls} {tlvs : List UInt8} {s : Thread} (ready : s.ready = true)
    (good : Acceptable o tlvs) : ∃ ds : Dataset, ds.tlvs = tlvs ∧ threadJoin o tlvs s = replace o ds s := by
  obtain ⟨ds,rfl,complete⟩ := good
  have inside : ¬(ds.tlvs = [] ∨ otOperationalDatasetMaxLength < ds.tlvs.length) :=
    not_or.mpr ⟨ds.some,Nat.not_lt.mpr ds.fits⟩
  refine ⟨ds,rfl,?_⟩
  simp [threadJoin,ready,inside,complete]

theorem joinRejects {o : Calls} {tlvs : List UInt8} (s : Thread) (bad : ¬Acceptable o tlvs) :
    (threadJoin o tlvs s).1 = s ∧ (threadJoin o tlvs s).2 ≠ espOk := by
  unfold threadJoin
  split
  · exact ⟨rfl,failNotOk⟩
  · split
    · exact ⟨rfl,invalidArgNotOk⟩
    · dsimp only
      split
      · rename_i complete
        exact absurd ⟨_,rfl,complete⟩ bad
      · exact ⟨rfl,invalidArgNotOk⟩

theorem replaceStores {o : Calls} {ds : Dataset} {s : Thread} (done : (replace o ds s).2 = espOk) :
    (replace o ds s).1.stored = some ds := by
  revert done
  unfold replace
  rw [previousStored]
  cases o.erased with
  | false => cases s.stored <;> exact fun failed => absurd failed failNotOk
  | true =>
    by_cases started : o.start.err = espOk
    · simp [started,autoStart]
    · simp only [Bool.not_true,Bool.false_eq_true,if_false,started]
      cases s.stored <;> exact fun failed => absurd failed failNotOk

theorem joinStores {o : Calls} {tlvs : List UInt8} {s : Thread}
    (done : (threadJoin o tlvs s).2 = espOk) :
    ∃ ds : Dataset, ds.tlvs = tlvs ∧ (threadJoin o tlvs s).1.stored = some ds := by
  cases ready : s.ready with
  | false =>
    have failed : (threadJoin o tlvs s).2 = espFail := by simp [threadJoin,ready]
    exact absurd (failed.symm.trans done) failNotOk
  | true =>
    by_cases good : Acceptable o tlvs
    · obtain ⟨ds,same,replaced⟩ := joinAcceptable ready good
      rw [replaced] at done ⊢
      exact ⟨ds,same,replaceStores done⟩
    · exact absurd done (joinRejects s good).2

theorem failedJoinSame {o : Calls} {tlvs : List UInt8} {s : Thread}
    (failed : (threadJoin o tlvs s).2 ≠ espOk) (mended : Mended o s) :
    (threadJoin o tlvs s).1.stored = s.stored := by
  by_cases good : Acceptable o tlvs
  · cases ready : s.ready with
    | false => simp [threadJoin,ready]
    | true =>
      obtain ⟨ds,_,replaced⟩ := joinAcceptable ready good
      rw [replaced] at failed ⊢
      exact replaceStored failed ready mended
  · rw [(joinRejects s good).1]

/- A rejected candidate changes nothing, and a failed replacement ends with what was
stored before it; so the candidate is stored only where it was already. -/
theorem failedJoinKeepsDataset (o : Calls) (tlvs : List UInt8) (s : Thread) :
    (¬Acceptable o tlvs → (threadJoin o tlvs s).1 = s ∧ (threadJoin o tlvs s).2 ≠ espOk) ∧
    (Acceptable o tlvs → (threadJoin o tlvs s).2 ≠ espOk → Mended o s →
      (threadJoin o tlvs s).1.stored = s.stored ∧
      ∀ ds, (threadJoin o tlvs s).1.stored = some ds → ds.tlvs = tlvs → s.stored = some ds) := by
  refine ⟨joinRejects s,fun _ failed mended => ?_⟩
  have same := failedJoinSame failed mended
  exact ⟨same,fun ds stored _ => same ▸ stored⟩

/- A device whose dataset is `tlvs`, and a candidate that persists but does not start. -/
def attached (ds : Dataset) : Thread := ⟨true,some ds,true,true,false,.never⟩

def candidateFails : Calls where
  parse := fun _ => some ⟨true,true,true,true,true,true,true,true,true,true⟩
  erased := true
  start := ⟨espFail,true,false,true⟩
  restore := ⟨espOk,true,true,true⟩
  cleaned := true

theorem failedJoinKeepsDatasetOne :
    (threadJoin candidateFails [2] (attached ⟨[1],by decide,by decide⟩)).1.stored =
      some ⟨[1],by decide,by decide⟩ ∧
    threadJoin candidateFails [] (attached ⟨[1],by decide,by decide⟩) =
      (attached ⟨[1],by decide,by decide⟩,espErrInvalidArg) := by
  constructor
  · exact ((failedJoinKeepsDataset candidateFails [2] (attached ⟨[1],by decide,by decide⟩)).2
      ⟨⟨[2],by decide,by decide⟩,rfl,rfl⟩ (by decide) (fun _ => rfl)).1
  · refine Prod.ext ((failedJoinKeepsDataset candidateFails [] _).1 ?_).1 rfl
    rintro ⟨ds,empty,_⟩
    exact ds.some empty

/- Joining the network it already has: the failure is reported, the old dataset is put
back, and the candidate is what is stored. -/
theorem failedJoinStoresCandidate :
    Acceptable candidateFails [1] ∧ Mended candidateFails (attached ⟨[1],by decide,by decide⟩) ∧
    (threadJoin candidateFails [1] (attached ⟨[1],by decide,by decide⟩)).2 ≠ espOk ∧
    (threadJoin candidateFails [1] (attached ⟨[1],by decide,by decide⟩)).1.stored.any
      (fun ds => ds.tlvs == [1]) = true :=
  ⟨⟨⟨[1],by decide,by decide⟩,rfl,rfl⟩,fun _ => rfl,by decide,by decide⟩

end EpskcCommissioner.ThreadJoin

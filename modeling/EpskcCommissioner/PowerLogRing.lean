import EpskcCommissioner.PowerHistoryResponse

/-! The ring of `power_log.c` beside a list that keeps every sample: what it reports and what
it gives are the end of that list, before and after it has gone round. -/
namespace EpskcCommissioner.PowerLogRing
open PowerLog PowerHistory PowerHistoryResponse

def unbounded (notes : List Note) : List Sample := notes.mapIdx (fun i n => rowAt n (i + 1))

def kept (notes : List Note) : Nat := min notes.length powerLogCapacity

def oldest (notes : List Note) : Nat := if notes = [] then 0 else notes.length - kept notes + 1

/- What `power_log_info` and `power_log_get` should tell of these samples. -/
structure Reports (bootId : UInt64) (notes : List Note) (log : Option Log) : Prop where
  info : ∃ info, powerLogInfo log = some info ∧ info.bootId = bootId ∧ info.latestSeq.toNat = notes.length ∧
    info.count.toNat = kept notes ∧ info.oldestSeq.toNat = oldest notes
  found : ∀ q : UInt32, (powerLogGet q log).isSome ↔ oldest notes ≤ q.toNat ∧ q.toNat ≤ notes.length ∧ 0 < q.toNat
  row : ∀ q row, powerLogGet q log = some row → (unbounded notes)[q.toNat - 1]? = some row
  rows : (List.range' (notes.length - kept notes + 1) (kept notes)).map (fun q => powerLogGet (UInt32.ofNat q) log) =
    ((unbounded notes).drop (notes.length - powerLogCapacity)).map some

variable {bootId : UInt64} {notes : List Note}

theorem infoReported (few : notes.length < 4294967296) :
    ∃ info, powerLogInfo (some (noted bootId notes)) = some info ∧ info.bootId = bootId ∧
      info.latestSeq.toNat = notes.length ∧ info.count.toNat = kept notes ∧ info.oldestSeq.toNat = oldest notes := by
  obtain ⟨boot,_,count,_⟩ := notedHolds bootId few
  obtain ⟨info,same,latest,first⟩ := @infoNoted bootId notes few
  refine ⟨info,same,?_,latest,?_,?_⟩
  · cases Option.some.inj same
    exact boot
  · cases Option.some.inj same
    exact count
  · have behind : notes.length - kept notes = notes.length - powerLogCapacity := by
      unfold kept
      omega
    rw [first, oldest, behind]

theorem getNumber (few : notes.length < 4294967296) (q : UInt32) : powerLogGet q (some (noted bootId notes)) =
    if oldest notes ≤ q.toNat ∧ 0 < q.toNat then (unbounded notes)[q.toNat - 1]? else none := by
  have bound := q.toNat_lt
  by_cases zero : q.toNat = 0
  · have same : q = 0 := UInt32.toNat_inj.mp zero
    rw [if_neg (fun both => absurd both.2 (by omega)), powerLogGet, if_neg (fun both => both.1 same)]
  · have number : q = UInt32.ofNat (q.toNat - 1 + 1) := by
      rw [Nat.sub_add_cancel (by omega), UInt32.ofNat_toNat]
    cases found : notes[q.toNat - 1]? with
    | some n =>
      have inside := (List.getElem?_eq_some_iff.mp found).1
      have row : (unbounded notes)[q.toNat - 1]? = some (rowAt n (q.toNat - 1 + 1)) := by
        rw [unbounded, List.getElem?_mapIdx, found]
        rfl
      have get := @getNoted bootId notes few _ n found
      rw [← number] at get
      rw [get, row]
      have capacity : powerLogCapacity = 8640 := rfl
      have some : notes ≠ [] := List.length_pos_iff.mp (by omega)
      refine if_congr ?_ rfl rfl
      unfold oldest kept
      rw [if_neg some]
      omega
    | none =>
      have beyond := List.getElem?_eq_none_iff.mp found
      have row : (unbounded notes)[q.toNat - 1]? = none := by
        rw [unbounded, List.getElem?_mapIdx, found]
        rfl
      have latest := (notedHolds bootId few).latest
      have late : ¬ q ≤ (noted bootId notes).latest := by
        rw [UInt32.le_iff_toNat_le, latest]
        omega
      rw [row, ite_self, powerLogGet, if_neg (fun all => late all.2.1)]

theorem unboundedLength (notes : List Note) : (unbounded notes).length = notes.length := List.length_mapIdx

/- After fewer than 2^32 samples the ring reports the end of the list that keeps them all, and
gives exactly those samples, whether it has gone round or not. -/
theorem ringLast (bootId : UInt64) {notes : List Note} (few : notes.length < 4294967296) :
    powerLogInit true bootId none = some (noted bootId []) ∧ Reports bootId notes (some (noted bootId notes)) := by
  have capacity : powerLogCapacity = 8640 := rfl
  refine ⟨rfl,infoReported few,fun q => ?_,fun q row get => ?_,?_⟩
  · rw [getNumber few]
    split
    · rename_i both
      rw [Option.isSome_iff_ne_none, ne_eq, List.getElem?_eq_none_iff, unboundedLength]
      exact ⟨fun inside => ⟨both.1,by omega,both.2⟩,fun all => by omega⟩
    · rename_i apart
      exact iff_of_false Bool.false_ne_true (fun all => apart ⟨all.1,all.2.2⟩)
  · rw [getNumber few] at get
    exact (Option.ite_none_right_eq_some.mp get).2
  · apply List.ext_getElem?
    intro i
    rw [List.getElem?_map, List.getElem?_map, List.getElem?_drop]
    by_cases inside : i < kept notes
    · have short : kept notes ≤ notes.length := Nat.min_le_left _ _
      have number : (UInt32.ofNat (notes.length - kept notes + 1 + 1 * i)).toNat = notes.length - kept notes + 1 + 1 * i :=
        UInt32.toNat_ofNat_of_lt' (show _ < 4294967296 by omega)
      have some : notes ≠ [] := List.length_pos_iff.mp (by omega)
      have first : oldest notes = notes.length - kept notes + 1 := if_neg some
      have place : notes.length - kept notes + 1 + 1 * i - 1 = notes.length - powerLogCapacity + i := by
        unfold kept at inside ⊢
        omega
      have there : notes.length - powerLogCapacity + i < (unbounded notes).length := by
        rw [unboundedLength]
        unfold kept at inside
        omega
      rw [List.getElem?_range' inside, Option.map_some, getNumber few, number, first, if_pos ⟨by omega,by omega⟩, place,
        List.getElem?_eq_getElem there]
      rfl
    · have past : (List.range' (notes.length - kept notes + 1) (kept notes))[i]? = none :=
        List.getElem?_eq_none_iff.mpr (by rw [List.length_range']; omega)
      have behind : (unbounded notes)[notes.length - powerLogCapacity + i]? = none := by
        refine List.getElem?_eq_none_iff.mpr ?_
        rw [unboundedLength]
        unfold kept at inside
        omega
      rw [past, behind]
      rfl

/- One sample more than there are slots: the first is gone, the second and the last are there. -/
theorem ringLastAround :
    (powerLogGet 1 (some (noted 7 (List.replicate 8641 default)))).isSome = false ∧
    (powerLogGet 2 (some (noted 7 (List.replicate 8641 default)))).isSome = true ∧
    (powerLogGet 8641 (some (noted 7 (List.replicate 8641 default)))).isSome = true := by
  have size : (List.replicate 8641 (default : Note)).length = 8641 := List.length_replicate
  have found := (ringLast 7 (size.trans_lt (by decide))).2.found
  have first : oldest (List.replicate 8641 (default : Note)) = 2 := by
    rw [oldest, if_neg (List.ne_nil_of_length_eq_add_one size), kept, size]
    rfl
  rw [first, size] at found
  refine ⟨Bool.eq_false_iff.mpr (fun some => ?_),(found 2).mpr (by decide),(found 8641).mpr (by decide)⟩
  exact absurd ((found 1).mp some).1 (by decide)

end EpskcCommissioner.PowerLogRing

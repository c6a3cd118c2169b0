import Mathlib.Data.List.Induction
import Mathlib.Data.List.Nodup

/-! The elements of a list that are the first with their key, in the order of the list. -/
namespace EpskcCommissioner.FirstOfEach

variable {α κ : Type} [DecidableEq κ]

def isFirst (key : α → κ) (xs : List α) (place : α × Nat) : Bool :=
  xs.findIdx (fun y => key y = key place.1) == place.2

def firsts (key : α → κ) (xs : List α) : List α := (xs.zipIdx.filter (isFirst key xs)).map Prod.fst

variable {key : α → κ} {xs ys : List α} {x : α}

theorem isFirstAppend {place : α × Nat} (mem : place ∈ xs.zipIdx) :
    isFirst key (xs ++ ys) place = isFirst key xs place := by
  obtain ⟨inside,same⟩ := List.mem_zipIdx' mem
  have found : xs.findIdx (fun y => key y = key place.1) < xs.length := by
    refine List.findIdx_lt_length_of_exists ⟨place.1,same ▸ List.getElem_mem inside,?_⟩
    exact decide_eq_true rfl
  unfold isFirst
  rw [List.findIdx_append, if_pos found]

theorem isFirstLast (xs : List α) (x : α) :
    isFirst key (xs ++ [x]) (x,xs.length) = decide (key x ∉ xs.map key) := by
  unfold isFirst
  rw [List.findIdx_append]
  by_cases seen : key x ∈ xs.map key
  · obtain ⟨y,mem,same⟩ := List.mem_map.mp seen
    have found : xs.findIdx (fun y => key y = key x) < xs.length :=
      List.findIdx_lt_length_of_exists ⟨y,mem,decide_eq_true same⟩
    rw [if_pos found, decide_eq_false (not_not_intro seen)]
    exact beq_false_of_ne (Nat.ne_of_lt found)
  · have missing : ¬ xs.findIdx (fun y => key y = key x) < xs.length := by
      intro found
      have same := List.findIdx_of_getElem?_eq_some (List.getElem?_eq_getElem found)
      exact seen (List.mem_map.mpr ⟨_,List.getElem_mem found,of_decide_eq_true same⟩)
    rw [if_neg missing, decide_eq_true seen]
    simp

theorem firstsSnoc (xs : List α) (x : α) :
    firsts key (xs ++ [x]) = firsts key xs ++ ([(x,xs.length)].filter (isFirst key (xs ++ [x]))).map Prod.fst := by
  have front : xs.zipIdx.filter (isFirst key (xs ++ [x])) = xs.zipIdx.filter (isFirst key xs) :=
    List.filter_congr fun place mem => isFirstAppend mem
  have last : List.zipIdx [x] xs.length = [(x,xs.length)] := rfl
  unfold firsts
  rw [List.zipIdx_append, Nat.zero_add, List.filter_append, front, List.map_append, last]

theorem firstsSeen (seen : key x ∈ xs.map key) : firsts key (xs ++ [x]) = firsts key xs := by
  rw [firstsSnoc, List.filter_cons_of_neg]
  · exact List.append_nil _
  · rw [isFirstLast, decide_eq_false (not_not_intro seen)]
    exact Bool.false_ne_true

theorem firstsNew (new : key x ∉ xs.map key) : firsts key (xs ++ [x]) = firsts key xs ++ [x] := by
  rw [firstsSnoc, List.filter_cons_of_pos]
  · rfl
  · rw [isFirstLast]
    exact decide_eq_true new

theorem firstsKeys (k : κ) : k ∈ (firsts key xs).map key ↔ k ∈ xs.map key := by
  induction xs using List.reverseRecOn with
  | nil => exact Iff.rfl
  | append_singleton xs x ih =>
    rw [List.map_append, List.mem_append, ← ih, List.map_singleton, List.mem_singleton]
    by_cases seen : key x ∈ xs.map key
    · rw [firstsSeen seen]
      refine ⟨.inl,fun mem => mem.elim id fun same => ?_⟩
      subst same
      exact ih.mpr seen
    · rw [firstsNew seen, List.map_append, List.mem_append, List.map_singleton, List.mem_singleton]

theorem firstsNodup : ((firsts key xs).map key).Nodup := by
  induction xs using List.reverseRecOn with
  | nil => exact List.nodup_nil
  | append_singleton xs x ih =>
    by_cases seen : key x ∈ xs.map key
    · rwa [firstsSeen seen]
    · rw [firstsNew seen, List.map_append, List.map_singleton, List.nodup_append]
      refine ⟨ih,List.nodup_singleton _,fun k mem l same equal => ?_⟩
      cases List.mem_singleton.mp same
      exact seen ((firstsKeys _).mp (equal ▸ mem))

theorem firstsPrefix (xs ys : List α) : firsts key xs <+: firsts key (xs ++ ys) := by
  induction ys using List.reverseRecOn with
  | nil => exact (List.append_nil xs).symm ▸ List.prefix_refl _
  | append_singleton ys y ih =>
    rw [← List.append_assoc, firstsSnoc]
    exact ih.trans (List.prefix_append _ _)

theorem firstsAll (nodup : (xs.map key).Nodup) : firsts key xs = xs := by
  induction xs using List.reverseRecOn with
  | nil => rfl
  | append_singleton xs x ih =>
    rw [List.map_append, List.nodup_append] at nodup
    obtain ⟨front,_,apart⟩ := nodup
    rw [firstsNew (fun seen => apart _ seen _ List.mem_cons_self rfl), ih front]

end EpskcCommissioner.FirstOfEach

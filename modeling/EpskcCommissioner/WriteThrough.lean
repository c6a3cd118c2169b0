import EpskcCommissioner.Durable

/-! Values in memory that tasks also keep in a durable store: a task works off a list of
operations, and several tasks may be at it at once. -/
namespace EpskcCommissioner.WriteThrough

variable {Key Value Task : Type}

/- `opens n` begins the next `n` operations, and passes over them where it fails. `mark` is a
fact about the values that is kept in memory only. -/
inductive Op (Key Value : Type) where
  | assign (k : Key) (v : Value)
  | mark (shown : Bool)
  | opens (n : Nat)
  | store (k : Key)
  | erase
  | commit
  deriving DecidableEq, Repr

structure Content (Key Value : Type) where
  ram : Key → Value
  marked : Bool
  flash : Durable Key (Option Value)

/- An operation, and what is left to do behind it. A call of the store that fails leaves it. -/
def perform [DecidableEq Key] (ok : Bool) (op : Op Key Value) (rest : List (Op Key Value)) (c : Content Key Value) :
    Content Key Value × List (Op Key Value) :=
  match op with
  | .assign k v => ({c with ram := Function.update c.ram k v},rest)
  | .mark shown => ({c with marked := shown},rest)
  | .opens n => (c,if ok then rest else rest.drop n)
  | .store k => (if ok then {c with flash := c.flash.write k (some (c.ram k))} else c,rest)
  | .erase => (if ok then {c with flash := c.flash.clear (fun _ => true) none} else c,rest)
  | .commit => (if ok then {c with flash := c.flash.commit} else c,rest)

def performAll [DecidableEq Key] : List (Op Key Value) → Content Key Value → Content Key Value
  | [], c => c
  | op :: rest, c => performAll rest (perform true op rest c).1

/- A value that is assigned is stored behind it, or is the empty one; what is erased is assigned
the empty value; and what is written is committed. -/
def Thorough (empty : Key → Value) : List (Op Key Value) → Prop
  | [] => True
  | .assign k v :: rest => (.store k ∈ rest ∨ v = empty k) ∧ Thorough empty rest
  | .store _ :: rest => .commit ∈ rest ∧ Thorough empty rest
  | .erase :: rest => (∀ k, .assign k (empty k) ∈ rest) ∧ .commit ∈ rest ∧ Thorough empty rest
  | .mark _ :: rest | .opens _ :: rest | .commit :: rest => Thorough empty rest

def Reflects (empty : Key → Value) (c : Content Key Value) (k : Key) : Prop :=
  c.flash.seen k = some (c.ram k) ∨ c.ram k = empty k

def Ahead (empty : Key → Value) (k : Key) (ops : List (Op Key Value)) : Prop :=
  .store k ∈ ops ∨ .assign k (empty k) ∈ ops

structure Kept (empty : Key → Value) (c : Content Key Value) (tasks : Task → List (Op Key Value)) : Prop where
  reflects : ∀ k, Reflects empty c k ∨ ∃ i, Ahead empty k (tasks i)
  safe : ∀ k, c.flash.Safe k ∨ ∃ i, .commit ∈ tasks i
  thorough : ∀ i, Thorough empty (tasks i)

variable {empty : Key → Value} {c : Content Key Value} {tasks : Task → List (Op Key Value)}

theorem keptQuiet (kept : Kept empty c tasks) (quiet : ∀ i, tasks i = []) (k : Key) :
    Reflects empty c k ∧ c.flash.Safe k := by
  have none : ∀ {op : Op Key Value}, ¬∃ i, op ∈ tasks i := by
    rintro op ⟨i,mem⟩
    rw [quiet i] at mem
    exact List.not_mem_nil mem
  constructor
  · rcases kept.reflects k with here | ⟨i,ahead | ahead⟩
    · exact here
    · exact absurd ⟨i,ahead⟩ none
    · exact absurd ⟨i,ahead⟩ none
  · exact (kept.safe k).resolve_right none

theorem keptStart {content : Key → Option Value} (tasks : Task → List (Op Key Value)) (quiet : ∀ i, tasks i = [])
    (ram : ∀ k, content k = some (c.ram k) ∨ c.ram k = empty k) (flash : c.flash = .settled content) :
    Kept empty c tasks where
  reflects k := .inl (by unfold Reflects; rw [flash]; exact ram k)
  safe k := .inl (flash ▸ Durable.settledSafe content k)
  thorough i := (quiet i).symm ▸ trivial

variable [DecidableEq Task] {i : Task} {op : Op Key Value} {rest : List (Op Key Value)}

theorem elsewhere {P : List (Op Key Value) → Prop} {ops : List (Op Key Value)}
    (mine : P (tasks i) → P ops) (some : ∃ j, P (tasks j)) : ∃ j, P (Function.update tasks i ops j) := by
  obtain ⟨j,there⟩ := some
  by_cases same : j = i
  · subst same
    exact ⟨j,by rw [Function.update_self]; exact mine there⟩
  · exact ⟨j,by rwa [Function.update_of_ne same]⟩

theorem everyUpdate {P : List (Op Key Value) → Prop} {ops : List (Op Key Value)} (every : ∀ j, P (tasks j))
    (mine : P ops) (j : Task) : P (Function.update tasks i ops j) := by
  by_cases same : j = i
  · subst same
    rwa [Function.update_self]
  · rw [Function.update_of_ne same]
    exact every j

theorem keptBegin {ops : List (Op Key Value)} (kept : Kept empty c tasks) (idle : tasks i = [])
    (thorough : Thorough empty ops) : Kept empty c (Function.update tasks i ops) where
  reflects k := by
    refine (kept.reflects k).imp id (elsewhere fun ahead => ?_)
    rw [idle] at ahead
    exact ahead.elim (nomatch ·) (nomatch ·)
  safe k := by
    refine (kept.safe k).imp id (elsewhere fun ahead => ?_)
    rw [idle] at ahead
    exact nomatch ahead
  thorough := everyUpdate kept.thorough thorough

theorem reflectsSame {d : Content Key Value} {k : Key} (reflects : Reflects empty c k)
    (seen : d.flash.seen k = c.flash.seen k) (ram : d.ram k = c.ram k) : Reflects empty d k := by
  unfold Reflects
  rwa [seen, ram]

theorem aheadTail {k : Key} (ahead : Ahead empty k (op :: rest)) (other : op ≠ .store k ∧ op ≠ .assign k (empty k)) :
    Ahead empty k rest :=
  ahead.imp (fun mem => (List.mem_cons.mp mem).resolve_left other.1.symm)
    (fun mem => (List.mem_cons.mp mem).resolve_left other.2.symm)

theorem commitTail (mem : .commit ∈ op :: rest) (other : op ≠ .commit) : .commit ∈ rest :=
  (List.mem_cons.mp mem).resolve_left other.symm

theorem keptNext [DecidableEq Key] (kept : Kept empty c tasks) (here : tasks i = op :: rest) :
    Kept empty (perform true op rest c).1 (Function.update tasks i (perform true op rest c).2) := by
  have mine := kept.thorough i
  rw [here] at mine
  have ahead : ∀ {k}, op ≠ .store k ∧ op ≠ .assign k (empty k) → (∃ j, Ahead empty k (tasks j)) →
      ∃ j, Ahead empty k (Function.update tasks i rest j) :=
    fun other => elsewhere fun ahead => aheadTail (here ▸ ahead) other
  have commits : op ≠ .commit → (∃ j, .commit ∈ tasks j) → ∃ j, .commit ∈ Function.update tasks i rest j :=
    fun other => elsewhere fun mem => commitTail (here ▸ mem) other
  have self : Function.update tasks i rest i = rest := Function.update_self ..
  cases op with
  | assign k v =>
    obtain ⟨stored,thorough⟩ := mine
    refine ⟨fun k' => ?_,fun k' => (kept.safe k').imp id (commits nofun),everyUpdate kept.thorough thorough⟩
    by_cases same : k' = k
    · subst same
      rcases stored with stored | blank
      · exact .inr ⟨i,.inl (self.symm ▸ stored)⟩
      · exact .inl (.inr ((Function.update_self ..).trans blank))
    · have unmoved : Function.update c.ram k v k' = c.ram k' := Function.update_of_ne same ..
      have apart : Op.assign k v ≠ .assign k' (empty k') := fun head => same (Op.assign.inj head).1.symm
      rcases kept.reflects k' with reflects | some
      · exact .inl (reflectsSame reflects rfl unmoved)
      · exact .inr (ahead ⟨nofun,apart⟩ some)
  | mark shown =>
    exact ⟨fun k => (kept.reflects k).imp id (ahead ⟨nofun,nofun⟩),
      fun k => (kept.safe k).imp id (commits nofun),everyUpdate kept.thorough mine⟩
  | opens n =>
    exact ⟨fun k => (kept.reflects k).imp id (ahead ⟨nofun,nofun⟩),
      fun k => (kept.safe k).imp id (commits nofun),everyUpdate kept.thorough mine⟩
  | store k =>
    obtain ⟨committed,thorough⟩ := mine
    refine ⟨fun k' => ?_,fun _ => .inr ⟨i,self.symm ▸ committed⟩,everyUpdate kept.thorough thorough⟩
    by_cases same : k' = k
    · subst same
      exact .inl (.inl (Durable.writeSelf ..))
    · have unmoved : (c.flash.write k (some (c.ram k))).seen k' = c.flash.seen k' := Durable.writeOther same ..
      have apart : (Op.store k : Op Key Value) ≠ .store k' := fun head => same (Op.store.inj head).symm
      rcases kept.reflects k' with reflects | some
      · exact .inl (reflectsSame reflects unmoved rfl)
      · exact .inr (ahead ⟨apart,nofun⟩ some)
  | erase =>
    obtain ⟨cleared,committed,thorough⟩ := mine
    exact ⟨fun k => .inr ⟨i,.inr (self.symm ▸ cleared k)⟩,fun _ => .inr ⟨i,self.symm ▸ committed⟩,
      everyUpdate kept.thorough thorough⟩
  | commit =>
    exact ⟨fun k => (kept.reflects k).imp id (ahead ⟨nofun,nofun⟩),
      fun k => .inl (Durable.settledSafe c.flash.seen k),everyUpdate kept.thorough mine⟩

end EpskcCommissioner.WriteThrough

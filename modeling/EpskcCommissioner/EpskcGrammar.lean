import EpskcCommissioner.EpskcOptions

/-! The grammar of a body of `POST /node/ba-epskc/key`: white space, or one object of members
with white space around every token. What the parser takes is exactly what it writes, with
no key twice and every number in the range of `long`. -/
namespace EpskcCommissioner.EpskcGrammar
open CBytes CString DatasetHex EpskcOptions

abbrev Blank := {text : List UInt8 // Spaces text}

/- An integer of JSON: a sign, if any, and digits without a zero in front. -/
structure Integer where
  negative : Bool
  digits : List UInt8
  long : digits ≠ []
  all : ∀ c ∈ digits, isDecimal c = true
  plain : digits.head? = some zero → digits.length = 1

def Integer.text (n : Integer) : List UInt8 := if n.negative then minus :: n.digits else n.digits

def Integer.value (n : Integer) : Int := if n.negative then -(number n.digits : Int) else number n.digits

/- In the range of `long`. -/
def Integer.Fits (n : Integer) : Prop := longMin ≤ n.value ∧ n.value ≤ longMax

instance (n : Integer) : Decidable n.Fits := inferInstanceAs (Decidable (_ ∧ _))

inductive Key where
  | lifetime | port
  deriving DecidableEq, Repr

def Key.text : Key → List UInt8
  | .lifetime => lifetimeKey
  | .port => portKey

structure Member where
  key : Key
  beforeColon : Blank
  beforeValue : Blank
  value : Integer

def Member.text (m : Member) : List UInt8 :=
  quote :: (m.key.text ++ quote :: (m.beforeColon.1 ++ colon :: (m.beforeValue.1 ++ m.value.text)))

/- The text of an object behind its opening brace, with what follows the object. After a
comma there is another member. -/
inductive Object : List UInt8 → List Member → Prop where
  | empty (inside after : Blank) : Object (inside.1 ++ closing :: after.1) []
  | last (before : Blank) (m : Member) (behind after : Blank) :
    Object (before.1 ++ (m.text ++ (behind.1 ++ closing :: after.1))) [m]
  | more (before : Blank) (m : Member) (behind : Blank) {rest : List UInt8} {n : Member}
    {members : List Member} (tail : Object rest (n :: members)) :
    Object (before.1 ++ (m.text ++ (behind.1 ++ comma :: rest))) (m :: n :: members)

inductive Options : List UInt8 → List Member → Prop where
  | blank (text : Blank) : Options text.1 []
  | object (before : Blank) {rest : List UInt8} {members : List Member} (inside : Object rest members) :
    Options (before.1 ++ opening :: rest) members

structure Accepted (body : List UInt8) (members : List Member) : Prop where
  shape : Options body members
  distinct : (members.map Member.key).Nodup
  fits : ∀ m ∈ members, m.value.Fits

def given : List Member → Key → Int → Int
  | [], _, default => default
  | m :: members, key, default => if m.key = key then m.value.value else given members key default

def seen (s : Args) : Key → Bool
  | .lifetime => s.sawLifetime
  | .port => s.sawPort

def held (s : Args) : Key → Int
  | .lifetime => s.lifetime
  | .port => s.port

def assign (key : Key) (value : Int) (s : Args) : Args :=
  match key with
  | .lifetime => {s with lifetime := value, sawLifetime := true}
  | .port => {s with port := value, sawPort := true}

def Member.store (m : Member) (s : Args) : Option Args :=
  if m.value.Fits ∧ seen s m.key = false then some (assign m.key m.value.value s) else none

def storeAll : List Member → Args → Option Args
  | [], s => some s
  | m :: members, s => (m.store s).bind (storeAll members)

variable {text rest : List UInt8} {s t : Args} {m : Member} {members : List Member} {key : Key}

theorem heldAssign (value : Int) (other : Key) :
    held (assign key value s) other = if other = key then value else held s other := by
  cases key <;> cases other <;> rfl

theorem seenAssign (value : Int) (other : Key) :
    seen (assign key value s) other = (seen s other || other == key) := by
  cases key <;> cases other <;> simp [seen,assign]

theorem storeSome (stored : m.store s = some t) :
    m.value.Fits ∧ seen s m.key = false ∧ t = assign m.key m.value.value s := by
  unfold Member.store at stored
  split at stored
  · rename_i free
    exact ⟨free.1,free.2,(Option.some.inj stored).symm⟩
  · cases stored

theorem givenNone {default : Int} (none : ∀ m ∈ members, m.key ≠ key) :
    given members key default = default := by
  induction members with
  | nil => rfl
  | cons m members ih =>
    rw [given, if_neg (none m List.mem_cons_self)]
    exact ih fun n mem => none n (List.mem_cons_of_mem _ mem)

theorem storeAllSome (stored : storeAll members s = some t) :
    (members.map Member.key).Nodup ∧ (∀ m ∈ members, m.value.Fits ∧ seen s m.key = false) ∧
      ∀ key, held t key = given members key (held s key) := by
  induction members generalizing s with
  | nil =>
    cases stored
    exact ⟨List.nodup_nil,List.forall_mem_nil _,fun _ => rfl⟩
  | cons m members ih =>
    obtain ⟨next,first,rest⟩ := Option.bind_eq_some_iff.mp stored
    obtain ⟨fits,fresh,rfl⟩ := storeSome first
    obtain ⟨distinct,others,values⟩ := ih rest
    have new : ∀ n ∈ members, n.key ≠ m.key := by
      intro n mem same
      have unseen := (others n mem).2
      rw [seenAssign, same, beq_self_eq_true, Bool.or_true] at unseen
      cases unseen
    refine ⟨?_,?_,?_⟩
    · rw [List.map_cons, List.nodup_cons]
      refine ⟨fun mem => ?_,distinct⟩
      obtain ⟨n,mem,same⟩ := List.mem_map.mp mem
      exact new n mem same
    · intro n mem
      rcases List.mem_cons.mp mem with rfl | mem
      · exact ⟨fits,fresh⟩
      · have unseen := (others n mem).2
        rw [seenAssign, Bool.or_eq_false_iff] at unseen
        exact ⟨(others n mem).1,unseen.1⟩
    · intro key
      rw [values key, heldAssign, given]
      by_cases same : m.key = key
      · rw [if_pos same.symm, if_pos same]
        exact givenNone fun n mem => same ▸ new n mem
      · rw [if_neg (Ne.symm same), if_neg same]

theorem storeAllTotal (distinct : (members.map Member.key).Nodup)
    (free : ∀ m ∈ members, m.value.Fits ∧ seen s m.key = false) : ∃ t, storeAll members s = some t := by
  induction members generalizing s with
  | nil => exact ⟨s,rfl⟩
  | cons m members ih =>
    rw [List.map_cons, List.nodup_cons] at distinct
    obtain ⟨new,distinct⟩ := distinct
    have first : m.store s = some (assign m.key m.value.value s) := if_pos (free m List.mem_cons_self)
    obtain ⟨t,rest⟩ := ih (s := assign m.key m.value.value s) distinct (by
      intro n mem
      obtain ⟨fits,unseen⟩ := free n (List.mem_cons_of_mem _ mem)
      refine ⟨fits,?_⟩
      rw [seenAssign, unseen, Bool.false_or]
      exact beq_false_of_ne fun same => new (same ▸ List.mem_map_of_mem mem))
    exact ⟨t,by rw [storeAll, first]; exact rest⟩

end EpskcCommissioner.EpskcGrammar

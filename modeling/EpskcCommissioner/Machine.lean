import Mathlib.Logic.Basic

/-! Labelled machines: a partial step function whose label resolves every choice
of the environment. A run condition is a predicate on the state before a step
and on its label, so that "every run whose steps meet the condition" is a
closure of the start states and not a property of one execution. -/
namespace EpskcCommissioner

structure Machine (State Label : Type) where
  start : State → Prop
  step : State → Label → Option State

variable {State Label : Type} (m : Machine State Label)

def Machine.run : State → List Label → Option State
  | s, [] => some s
  | s, l :: rest => (m.step s l).bind (fun t => Machine.run t rest)

inductive Machine.Under (meets : State → Label → Prop) : State → Prop where
  | start {s} (initial : m.start s) : Machine.Under meets s
  | next {s l t} (before : Machine.Under meets s) (condition : meets s l)
      (stepped : m.step s l = some t) : Machine.Under meets t

/- Every state of every run, with no condition on its steps. -/
def Machine.Reachable (s : State) : Prop := m.Under (fun _ _ => True) s

variable {m} {meets : State → Label → Prop}

theorem underReachable {s} (h : m.Under meets s) : m.Reachable s := by
  induction h with
  | start initial => exact .start initial
  | next _ _ stepped ih => exact .next ih trivial stepped

theorem underWeaken {weaker : State → Label → Prop} (all : ∀ s l, meets s l → weaker s l)
    {s} (h : m.Under meets s) : m.Under weaker s := by
  induction h with
  | start initial => exact .start initial
  | next _ condition stepped ih => exact .next ih (all _ _ condition) stepped

theorem underInvariant (Inv : State → Prop) (initial : ∀ s, m.start s → Inv s)
    (kept : ∀ s l t, Inv s → meets s l → m.step s l = some t → Inv t)
    {s} (h : m.Under meets s) : Inv s := by
  induction h with
  | start first => exact initial _ first
  | next _ condition stepped ih => exact kept _ _ _ ih condition stepped

theorem reachableInvariant (Inv : State → Prop) (initial : ∀ s, m.start s → Inv s)
    (kept : ∀ s l t, Inv s → m.step s l = some t → Inv t)
    {s} (h : m.Reachable s) : Inv s :=
  underInvariant Inv initial (fun s l t inv _ stepped => kept s l t inv stepped) h

/- A later invariant may use one that is already known of every such state. -/
theorem underInvariantWith (Known Inv : State → Prop)
    (known : ∀ s, m.Under meets s → Known s) (initial : ∀ s, m.start s → Inv s)
    (kept : ∀ s l t, Known s → Inv s → meets s l → m.step s l = some t → Inv t)
    {s} (h : m.Under meets s) : Inv s := by
  induction h with
  | start first => exact initial _ first
  | next before condition stepped ih => exact kept _ _ _ (known _ before) ih condition stepped

theorem reachableRun {s t} {labels : List Label} (h : m.Reachable s)
    (ran : m.run s labels = some t) : m.Reachable t := by
  induction labels generalizing s with
  | nil => cases Option.some.inj ran; exact h
  | cons l rest ih =>
    simp only [Machine.run, Option.bind_eq_some_iff] at ran
    obtain ⟨u, stepped, ran⟩ := ran
    exact ih (.next h trivial stepped) ran

/- The steps of one finite run all meet the condition. -/
def Machine.Meets (m : Machine State Label) (meets : State → Label → Prop) :
    State → List Label → Prop
  | _, [] => True
  | s, l :: rest => meets s l ∧ ∀ t ∈ m.step s l, Machine.Meets m meets t rest

instance Machine.decidableMeets (m : Machine State Label) (meets : State → Label → Prop)
    [∀ s l, Decidable (meets s l)] : ∀ s labels, Decidable (m.Meets meets s labels)
  | _, [] => inferInstanceAs (Decidable True)
  | s, l :: rest =>
    have := fun t => Machine.decidableMeets m meets t rest
    inferInstanceAs (Decidable (meets s l ∧ ∀ t ∈ m.step s l, Machine.Meets m meets t rest))

theorem underRun {s t} {labels : List Label} (h : m.Under meets s)
    (all : m.Meets meets s labels) (ran : m.run s labels = some t) : m.Under meets t := by
  induction labels generalizing s with
  | nil => cases Option.some.inj ran; exact h
  | cons l rest ih =>
    simp only [Machine.run, Option.bind_eq_some_iff] at ran
    obtain ⟨u, stepped, ran⟩ := ran
    exact ih (.next h all.1 stepped) (all.2 u stepped) ran

theorem underEnds (meets : State → Label → Prop) {s} {labels : List Label} {ends : State → Bool} (initial : m.start s)
    (all : m.Meets meets s labels) (ran : (m.run s labels).any ends = true) :
    ∃ t, m.Under meets t ∧ ends t = true := by
  obtain ⟨t, found, ends⟩ := (Option.any_eq_true _ _).mp ran
  exact ⟨t, underRun (.start initial) all found, ends⟩

theorem runEnds {s} {labels : List Label} {ends : State → Bool} (initial : m.start s)
    (ran : (m.run s labels).any ends = true) : ∃ t, m.Reachable t ∧ ends t = true := by
  obtain ⟨t, found, ends⟩ := (Option.any_eq_true _ _).mp ran
  exact ⟨t, reachableRun (.start initial) found, ends⟩

end EpskcCommissioner

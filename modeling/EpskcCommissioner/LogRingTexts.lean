import EpskcCommissioner.LogRingDevice

/-! What the texts of the ring have in common: a property of the empty text that
`append_clean` keeps holds of every partial line, and of every line that is committed. -/
namespace EpskcCommissioner.LogRingTexts
open LogText LogRing LogRingDevice

structure Keeps (P : List UInt8 → Prop) : Prop where
  empty : P []
  append : ∀ {dst : Text} (src : List UInt8), P dst.bytes → P (appendClean dst src).bytes

def HeldTexts (P : List UInt8 → Prop) (ram : Ram) : Prop := ∀ k, P (ram.pending k).text.bytes

def CommittedTexts (P : List UInt8 → Prop) (commits : List Commit) : Prop := ∀ c ∈ commits, P c.text.bytes

structure Texts (P : List UInt8 → Prop) (s : Device) : Prop where
  ram : HeldTexts P s.ram
  committing : ∀ k c stores, s.lock = some k → k.committing = some (c,stores) → P c.text.bytes
  later : ∀ k, s.lock = some k → CommittedTexts P k.later
  committed : ∀ id c, (id,c) ∈ s.committed → P c.text.bytes

section
variable {P : List UInt8 → Prop}

theorem linesNone : CommittedTexts P [] := List.forall_mem_nil _

theorem setPendingText {ram : Ram} (k : Fin 4) {v : Pending} (texts : HeldTexts P ram)
    (text : P v.text.bytes) : HeldTexts P (ram.setPending k v) := by
  intro j
  change P (Function.update ram.pending k v j).text.bytes
  rw [Function.update_apply]
  split
  · exact text
  · exact texts j

theorem freePendingTexts {ram : Ram} (p : Option (Fin 4)) (texts : HeldTexts P ram) :
    HeldTexts P (freePending p ram) := by
  cases p with
  | none => exact texts
  | some k => exact setPendingText k texts (texts k)

theorem textsSection {s : Device} (texts : Texts P s) (h : Half) {k : Critical} (locked : s.lock = some k) :
    Texts P (sectionStep h k s) := by
  have later := texts.later k locked
  unfold sectionStep
  split
  · rename_i c st rest committing
    have text := texts.committing k c _ locked committing
    dsimp only
    split
    · refine ⟨texts.ram,?_,?_,?_⟩
      · intro k' d stores held found
        cases Option.some.inj held
        exact absurd found.symm (Option.some_ne_none _)
      · intro k' held
        cases Option.some.inj held
        exact later
      · intro id d mem
        rcases List.mem_cons.mp mem with now | earlier
        · cases now
          exact text
        · exact texts.committed id d earlier
    · refine ⟨texts.ram,?_,?_,texts.committed⟩
      · intro k' d stores held found
        cases Option.some.inj held
        cases Option.some.inj found
        exact text
      · intro k' held
        cases Option.some.inj held
        exact later
  · refine ⟨texts.ram,?_,?_,texts.committed⟩
    · intro k' d stores held found
      cases Option.some.inj held
      exact absurd found.symm (Option.some_ne_none _)
    · intro k' held
      cases Option.some.inj held
      exact later
  · split
    · rename_i c rest next
      rw [next] at later
      obtain ⟨first,others⟩ := List.forall_mem_cons.mp later
      refine ⟨texts.ram,?_,?_,texts.committed⟩
      · intro k' d stores held found
        cases Option.some.inj held
        cases Option.some.inj found
        exact first
      · intro k' held
        cases Option.some.inj held
        exact others
    · refine ⟨texts.ram,?_,?_,texts.committed⟩
      · exact fun k' d stores held => absurd held.symm (Option.some_ne_none k')
      · exact fun k' held => absurd held.symm (Option.some_ne_none k')

variable (keeps : Keeps P)
include keeps

theorem commitText {ram : Ram} (p : Option (Fin 4)) (segment : List UInt8) (nowMs : UInt32)
    (texts : HeldTexts P ram) :
    HeldTexts P (commitLocked p segment nowMs ram).1 ∧ P (commitLocked p segment nowMs ram).2.text.bytes := by
  cases p with
  | none => exact ⟨texts,keeps.append segment keeps.empty⟩
  | some k => exact ⟨setPendingText k texts keeps.empty,keeps.append segment (texts k)⟩

theorem claimTexts {ram : Ram} (task : Nat) (nowMs : UInt32) (texts : HeldTexts P ram) :
    HeldTexts P (claimPending task nowMs ram).2.1 ∧ CommittedTexts P (claimPending task nowMs ram).2.2 := by
  unfold claimPending
  split
  · exact ⟨setPendingText _ texts keeps.empty,linesNone⟩
  · obtain ⟨after,text⟩ := @commitText P keeps {ram with victim := ram.victim + 1} (some (victimOf ram)) [] nowMs texts
    exact ⟨setPendingText _ after keeps.empty,List.forall_mem_singleton.mpr text⟩

theorem ingestTexts (task : Nat) (nowMs : UInt32) (text segment : List UInt8) (p : Option (Fin 4))
    {ram : Ram} (texts : HeldTexts P ram) :
    HeldTexts P (ingestLoop task nowMs text segment p ram).1 ∧
      CommittedTexts P (ingestLoop task nowMs text segment p ram).2 := by
  induction text generalizing segment p ram with
  | nil =>
    unfold ingestLoop
    split
    · exact ⟨texts,linesNone⟩
    · cases p with
      | some k => exact ⟨setPendingText k texts (keeps.append segment (texts k)),linesNone⟩
      | none =>
        obtain ⟨after,lines⟩ := claimTexts keeps task nowMs texts
        exact ⟨setPendingText _ after (keeps.append segment (after _)),lines⟩
  | cons b rest ih =>
    unfold ingestLoop
    split
    · exact ih (segment ++ [b]) p texts
    · split
      · obtain ⟨after,text⟩ := commitText keeps p segment nowMs texts
        obtain ⟨last,lines⟩ := ih [] none after
        exact ⟨last,List.forall_mem_cons.mpr ⟨text,lines⟩⟩
      · exact ih [] none (freePendingTexts p texts)

theorem executeTexts {ram : Ram} (call : Call) (nowMs : UInt32) (texts : HeldTexts P ram) :
    HeldTexts P (execute call nowMs ram).1 ∧ CommittedTexts P (execute call nowMs ram).2 := by
  cases call with
  | ingest task text =>
    change HeldTexts P (ingest task nowMs text ram).1 ∧ CommittedTexts P (ingest task nowMs text ram).2
    unfold ingest
    split
    · exact ⟨texts,linesNone⟩
    · exact ingestTexts keeps task nowMs text [] _ texts
  | logRingLine text =>
    change HeldTexts P (logRingLine nowMs text ram).1 ∧ CommittedTexts P (logRingLine nowMs text ram).2
    unfold logRingLine
    split
    · exact ⟨texts,linesNone⟩
    · obtain ⟨after,line⟩ := commitText keeps none text nowMs texts
      exact ⟨after,List.forall_mem_singleton.mpr line⟩

theorem clearedTexts : HeldTexts P .cleared := fun _ => keeps.empty

theorem textsStep {s t : Device} {l : Label} (texts : Texts P s) (taken : step s l = some t) : Texts P t := by
  cases stepped taken with
  | evict k => exact {texts with}
  | call id call nowMs _ => exact {texts with}
  | enter id call nowMs _ _ =>
    obtain ⟨after,lines⟩ := executeTexts keeps call nowMs texts.ram
    refine ⟨after,?_,?_,texts.committed⟩
    · intro k c stores held found
      cases Option.some.inj held
      exact absurd found.symm (Option.some_ne_none _)
    · intro k held
      cases Option.some.inj held
      exact lines
  | proceed h k _ locked => exact textsSection texts h locked
  | writeBack id work own _ =>
    cases work with
    | nil => exact {texts with}
    | cons k work => exact {texts with}
  | crash _ =>
    refine ⟨clearedTexts keeps,?_,?_,texts.committed⟩
    · exact fun k c stores held => absurd held.symm (Option.some_ne_none k)
    · exact fun k held => absurd held.symm (Option.some_ne_none k)
  | init bootId _ =>
    refine ⟨?_,texts.committing,texts.later,texts.committed⟩
    change HeldTexts P (initRam s.memory s.ram)
    unfold initRam
    split
    · exact texts.ram
    · exact texts.ram

theorem reachedTexts {s : Device} (reached : device.Reachable s) : Texts P s := by
  refine reachableInvariant (Texts P) ?_ (fun s l t => textsStep keeps) reached
  rintro _ ⟨memory,rfl⟩
  refine ⟨clearedTexts keeps,?_,?_,fun id c mem => absurd mem List.not_mem_nil⟩
  · exact fun k c stores held => absurd held.symm (Option.some_ne_none k)
  · exact fun k held => absurd held.symm (Option.some_ne_none k)

end

end EpskcCommissioner.LogRingTexts

import EpskcCommissioner.LogRingChains

/-! `log_ring_get` of the previous boot: the lines of the boot before and no others, and
the same for as long as the boot runs. It needs boot IDs that differ and fewer than 2^32
lines in a boot. -/
namespace EpskcCommissioner.LogRingPrevious
open LogRing LogRingDevice LogRingSlots LogRingRunning LogRingInit LogRingRecovery LogRingChains CachedMemory

/- What `log_ring_get` gives of the previous boot while the next one runs: its lines and
no others, all that had returned and still had their slots, and the same all along. -/
structure Recovers (s : Device) : Prop where
  only : ∀ seq out, logRingGet .previous seq s.memory.view s.ram = some out →
    ∃ b c, s.past = some b ∧ c ∈ b.lines ∧ c.seq = seq ∧ Reads out c
  kept : ∀ b, s.past = some b → ∀ k ∈ b.returned, ¬Taken b k →
    ∃ c out, b.lines[k]? = some c ∧ logRingGet .previous c.seq s.memory.view s.ram = some out ∧
      Reads out c
  stable : ∀ seq, logRingGet .previous seq s.memory.view s.ram = s.recovered seq

theorem previousRecovered {s : Device} (reached : device.Under Trusted s)
    (runs : s.ram.cur.isSome) : Recovers s := by
  rcases sound reached with ⟨_,remembers⟩ | off
  · refine ⟨?_,?_,remembers.stable⟩
    · intro seq out got
      exact remembers.only seq out ((remembers.stable seq).symm.trans got)
    · intro b past k returned free
      obtain ⟨c,out,line,got,reads⟩ := remembers.kept b past k returned free
      exact ⟨c,out,line,(remembers.stable c.seq).trans got,reads⟩
  · rw [off.ram] at runs
    exact absurd runs Bool.false_ne_true

theorem previousRecoveredOnce : oneLine.boot.returned = [0] ∧ Recovers (reboot 8 oneLine) := by
  have lets : Lets Trusted := letsWeaken letsWhole (fun _ _ both => both.2)
  have before : device.Under Trusted oneLine := underWeaken (fun _ _ both => both.2) oneLineLogged.reached
  have after := rebootReached 8 lets before oneLineLogged.quiet
    ⟨loggedChecks oneLineLogged,loggedFresh oneLineLogged,trivial⟩
  exact ⟨rfl,previousRecovered after (initRuns 8 _)⟩

/- A boot that logs 2^32 lines has its last line nowhere: 0 is no line's number. -/
theorem lastLineLost : ∃ s, device.Under (fun s l => Checked s l ∧ Untrusted s l ∧ Fresh s l) s ∧
    s.ram.cur.isSome ∧ ¬Recovers s := by
  have lets : Lets (fun s l => Checked s l ∧ Untrusted s l ∧ Fresh s l) :=
    letsWeaken letsWhole (fun _ _ all => ⟨all.2.1,all.1,all.2.2.1⟩)
  obtain ⟨last,wraps⟩ : ∃ last, last + 1 = UInt32.size := ⟨4294967295,rfl⟩
  obtain ⟨s,logged⟩ := loggedLines lets ⟨blankChecks,fun _ => rfl,nofun⟩ (last + 1)
    (fun _ _ => ⟨trivial,trivial,trivial⟩)
  have length := logged.length
  have started : ¬(crash s).ids = [] := fun none => nomatch logged.ids.symm.trans none
  refine ⟨reboot 8 s,rebootReached 8 lets logged.reached logged.quiet
    ⟨loggedChecks logged,fun none => absurd none started,loggedFresh logged⟩,initRuns 8 _,fun recovers => ?_⟩
  have returned : last ∈ s.boot.returned := logged.quiet.returned last (by omega)
  have free : ¬Taken s.boot last := by
    unfold Taken
    rw [logged.quiet.begun]
    omega
  obtain ⟨c,out,line,got,_⟩ := recovers.kept s.boot rfl last returned free
  have zero : c.seq = 0 := by
    rw [logged.quiet.numbered last c line, Nat.zero_add, wraps]
    rfl
  obtain ⟨h,_,valid,own,_⟩ := getAccepted got
  exact emptyInvalid (own.trans zero) valid

/- A boot whose ID is that of the boot before last brings back its line. -/
theorem idsRepeat : ∃ s, device.Under (fun s l => Checked s l ∧ Untrusted s l ∧ Few s l) s ∧
    s.ram.cur.isSome ∧ ¬Recovers s := by
  have weaker : ∀ s l, Whole s l → Checked s l ∧ Untrusted s l ∧ Few s l :=
    fun _ _ all => ⟨all.2.1,all.1,all.2.2.2⟩
  have lets := letsWeaken letsWhole weaker
  obtain ⟨s,c,logged,lines,seq,shown⟩ : ∃ s c, Logged Whole 1 s ∧
      s.boot.lines = [c] ∧ c.seq = 1 ∧ Shows (wanted s.boot.half s.boot.id c) s.memory.stored :=
    ⟨_,_,oneLineLogged,rfl,rfl,oneLineStored oneLineLogged rfl⟩
  have started : ∀ t : Device, t.ids ≠ [] → t.ids = [] → trusted t.memory.view = false :=
    fun t some none => absurd none some
  have drawn : s.ids ≠ [] := fun none => nomatch logged.ids.symm.trans none
  have first : device.Under (fun s l => Checked s l ∧ Untrusted s l ∧ Few s l) s :=
    underWeaken weaker logged.reached
  have second := rebootReached 8 lets first logged.quiet
    ⟨loggedChecks logged,started _ drawn,trivial⟩
  -- the second boot has the other half, the third one has this half and this ID again
  obtain ⟨known,half⟩ := rebootTwice logged.quiet 8 s.boot.id
  have slotted : Slotted s.boot.half s.boot.id (reboot 8 s) := slottedInit 8 logged.slotted
  have third := rebootReached s.boot.id lets second (quietReboot 8 s)
    ⟨slottedChecks slotted known,started _ nofun,trivial⟩
  have shownAgain := showsReboot s.boot.id (showsReboot 8 shown)
  have slottedAgain : Slotted s.boot.half s.boot.id (reboot s.boot.id (reboot 8 s)) :=
    slottedInit s.boot.id slotted
  have quiet := quietReboot s.boot.id (reboot 8 s)
  rw [← half] at shownAgain slottedAgain
  obtain ⟨count,_,stored⟩ := quiet.header
  have fourth := rebootReached 9 lets third quiet
    ⟨slottedChecks slottedAgain (stored (.bootId _) _ (if_pos rfl)),started _ nofun,trivial⟩
  refine ⟨_,fourth,initRuns 9 _,fun recovers => ?_⟩
  have alone : ∀ d, (s.boot.id,d) ∈ s.committed → d.seq = c.seq := by
    intro d mem
    have own := logged.committed _ d mem
    rw [lines] at own
    rw [List.mem_singleton.mp own]
  have numbered : c.seq ≠ 0 := by
    rw [seq]
    decide
  obtain ⟨out,got⟩ := previousGiven quiet slottedAgain alone shownAgain numbered 9
  obtain ⟨b,d,past,mem,_⟩ := recovers.only c.seq out got
  cases Option.some.inj past
  exact absurd mem List.not_mem_nil

/- Without differing boot IDs, or without the bound on the lines of a boot, it fails. -/
theorem chainsLose :
    (¬∀ s, device.Under (fun s l => Checked s l ∧ Untrusted s l ∧ Few s l) s → s.ram.cur.isSome →
      Recovers s) ∧
    ¬∀ s, device.Under (fun s l => Checked s l ∧ Untrusted s l ∧ Fresh s l) s → s.ram.cur.isSome →
      Recovers s := by
  constructor
  · intro all
    obtain ⟨s,reached,runs,lost⟩ := idsRepeat
    exact lost (all s reached runs)
  · intro all
    obtain ⟨s,reached,runs,lost⟩ := lastLineLost
    exact lost (all s reached runs)

end EpskcCommissioner.LogRingPrevious

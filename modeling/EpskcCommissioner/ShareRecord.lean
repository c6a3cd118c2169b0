import EpskcCommissioner.Machine

/-! The `_meshcop-e` record of an ephemeral key: keys are started and stopped on other tasks
or end by themselves, OpenThread posts `share_state_cb` at each change, and one run of it may
cover several. Every mdns add and remove is taken to succeed. -/
namespace EpskcCommissioner.ShareRecord

/- `otBorderAgentEphemeralKeyState` -/
inductive KeyState where
  | disabled | stopped | started | connected | accepted
  deriving DecidableEq, Repr

/- `active` of `share_state_cb`. -/
def KeyState.active : KeyState → Bool
  | .started | .connected | .accepted => true
  | .disabled | .stopped => false

/- The record that mdns advertises. `txt` is whether it carries what OpenThread publishes. -/
structure Record where
  port : UInt16
  txt : Bool
  deriving DecidableEq, Repr

/- `published` is `s_meshcop_e_published`, and `port` is the one that OpenThread opened for
the newest key. The last field is history: the port of the key that the newest run of the
callback found active, if it found one. -/
structure Sharing where
  key : KeyState
  port : UInt16
  outstanding : Bool
  published : Bool
  record : Option Record
  seen : Option UInt16
  deriving DecidableEq, Repr

/- The labels resolve what OpenThread decides: the port that it picks, whether a tap or a
start fails, and where a commissioner brings a key. `agent` is whether the border agent
runs, without which there is no TXT data to apply. -/
inductive Label where
  | start (port picked : UInt16) (tapFails startFails : Bool)
  | stop
  | expire
  | commissioner (next : KeyState)
  | callback (agent : Bool)
  | serviceChanged (agent : Bool)

/- `otBorderAgentEphemeralKeySetEnabled` -/
def enableKey (s : Sharing) : Sharing :=
  match s.key with
  | .disabled => {s with key := .stopped, outstanding := true}
  | _ => s

/- `otBorderAgentEphemeralKeyStart`. A key that is active is in the way of another. -/
def keyStart (port picked : UInt16) (fails : Bool) (s : Sharing) : Sharing :=
  if s.key = .stopped ∧ fails = false then
    {s with key := .started, port := if port = 0 then picked else port, outstanding := true}
  else s

/- `thread_share_start_on`, with the border router started. -/
def threadShareStartOn (port picked : UInt16) (tapFails startFails : Bool) (s : Sharing) : Sharing :=
  let enabled := enableKey s
  if tapFails then enabled else keyStart port picked startFails enabled

/- The end of a key: `thread_share_stop`, or its lifetime. -/
def keyEnd (s : Sharing) : Sharing :=
  if s.key.active then {s with key := .stopped, outstanding := true} else s

/- `meshcop_txt_apply_locked` for `_meshcop-e`. -/
def meshcopTxtApply (agent : Bool) (record : Option Record) : Option Record :=
  if agent then record.map (fun r => {r with txt := true}) else record

/- What `share_state_cb` does to the flag and the record. -/
def shareStateCb (agent : Bool) (s : Sharing) : Sharing :=
  if s.key.active && !s.published then
    {s with record := meshcopTxtApply agent (some ⟨s.port,false⟩), published := true}
  else if !s.key.active && s.published then {s with record := none, published := false}
  else s

def step (s : Sharing) : Label → Option Sharing
  | .start port picked tapFails startFails => some (threadShareStartOn port picked tapFails startFails s)
  | .stop | .expire => some (keyEnd s)
  | .commissioner next =>
    if s.key.active && next.active then some {s with key := next, outstanding := true} else none
  | .callback agent =>
    if s.outstanding then
      some {shareStateCb agent s with
        outstanding := false
        seen := if s.key.active then some s.port else none}
    else none
  | .serviceChanged agent =>
    some (if s.published then {s with record := meshcopTxtApply agent s.record} else s)

def boot : Sharing := ⟨.disabled,0,false,false,none,none⟩

def sharing : Machine Sharing Label := ⟨fun s => s = boot,step⟩

/- With no callback outstanding, the record is up exactly while a key is active, on the port
of that key, and the flag tells. -/
def Advertised (s : Sharing) : Prop :=
  s.outstanding = false → (s.record.isSome = s.key.active ∧ s.published = s.record.isSome ∧
    ∀ r ∈ s.record, r.port = s.port)

instance (s : Sharing) : Decidable (Advertised s) := inferInstanceAs (Decidable (_ → _))

/- Whether a run of the callback finds a key active on another port than the key that the
run before it found active. -/
def moved (s : Sharing) : Label → Bool
  | .callback _ => s.key.active && s.seen.any (· != s.port)
  | _ => false

def Steady (s : Sharing) (l : Label) : Prop := moved s l = false

instance (s : Sharing) (l : Label) : Decidable (Steady s l) := inferInstanceAs (Decidable (_ = _))

structure Tracked (s : Sharing) : Prop where
  flag : s.published = s.record.isSome
  port : s.record.map Record.port = s.seen
  settled : s.outstanding = false → s.seen = if s.key.active then some s.port else none

variable {s t : Sharing}

theorem txtKeepsPort (agent : Bool) (record : Option Record) :
    (meshcopTxtApply agent record).map Record.port = record.map Record.port := by
  cases record <;> cases agent <;> rfl

theorem txtKeepsRecord (agent : Bool) (record : Option Record) :
    (meshcopTxtApply agent record).isSome = record.isSome := by
  cases record <;> cases agent <;> rfl

/- A change of the key leaves the record alone and posts the callback. -/
structure Posts (s t : Sharing) : Prop where
  record : t.record = s.record
  published : t.published = s.published
  seen : t.seen = s.seen
  posted : t = s ∨ t.outstanding = true

theorem enablePosts (s : Sharing) : Posts s (enableKey s) := by
  unfold enableKey
  split
  · exact ⟨rfl,rfl,rfl,.inr rfl⟩
  · exact ⟨rfl,rfl,rfl,.inl rfl⟩

theorem keyStartPosts (port picked : UInt16) (fails : Bool) (s : Sharing) :
    Posts s (keyStart port picked fails s) := by
  unfold keyStart
  split
  · exact ⟨rfl,rfl,rfl,.inr rfl⟩
  · exact ⟨rfl,rfl,rfl,.inl rfl⟩

theorem postsAfter {u : Sharing} (first : Posts s t) (second : Posts t u) : Posts s u := by
  refine ⟨second.record.trans first.record,second.published.trans first.published,
    second.seen.trans first.seen,?_⟩
  rcases second.posted with rfl | waiting
  · exact first.posted
  · exact .inr waiting

theorem startPosts (port picked : UInt16) (tapFails startFails : Bool) (s : Sharing) :
    Posts s (threadShareStartOn port picked tapFails startFails s) := by
  unfold threadShareStartOn
  cases tapFails with
  | true => exact enablePosts s
  | false => exact postsAfter (enablePosts s) (keyStartPosts port picked startFails _)

theorem endPosts (s : Sharing) : Posts s (keyEnd s) := by
  unfold keyEnd
  split
  · exact ⟨rfl,rfl,rfl,.inr rfl⟩
  · exact ⟨rfl,rfl,rfl,.inl rfl⟩

theorem postsTracked (tracked : Tracked s) (posts : Posts s t) : Tracked t := by
  refine ⟨?_,?_,fun settled => ?_⟩
  · rw [posts.published, posts.record]
    exact tracked.flag
  · rw [posts.record, posts.seen]
    exact tracked.port
  · rcases posts.posted with rfl | waiting
    · exact tracked.settled settled
    · rw [waiting] at settled
      cases settled

theorem steadySeen {agent : Bool} (steady : Steady s (.callback agent)) (active : s.key.active = true)
    {port : UInt16} (seen : s.seen = some port) : port = s.port := by
  simp only [Steady,moved,active,seen,Bool.true_and,Option.any_some,bne_eq_false_iff_eq] at steady
  exact steady

theorem callbackTracked {agent : Bool} (tracked : Tracked s) (steady : Steady s (.callback agent))
    (stepped : step s (.callback agent) = some t) : Tracked t := by
  simp only [step] at stepped
  split at stepped
  · cases stepped
    unfold shareStateCb
    have flag := tracked.flag
    have port := tracked.port
    cases active : s.key.active with
    | true =>
      cases up : s.published with
      | false =>
        refine ⟨?_,?_,fun _ => ?_⟩
        · simp [txtKeepsRecord]
        · simp [txtKeepsPort]
        · simp [active]
      | true =>
        rw [up] at flag
        obtain ⟨r,found⟩ := Option.isSome_iff_exists.mp flag.symm
        rw [found] at port
        have same := steadySeen steady active port.symm
        refine ⟨?_,?_,fun _ => ?_⟩
        · simp [up,found]
        · simp [found,same]
        · simp [active]
    | false =>
      cases up : s.published with
      | true => exact ⟨rfl,rfl,fun _ => by simp [active]⟩
      | false =>
        rw [up] at flag
        have none := Option.isNone_iff_eq_none.mp (Option.isSome_eq_false_iff.mp flag.symm)
        refine ⟨?_,?_,fun _ => ?_⟩
        · simp [up,none]
        · simp [none]
        · simp [active]
  · cases stepped

theorem serviceTracked {agent : Bool} (tracked : Tracked s)
    (stepped : step s (.serviceChanged agent) = some t) : Tracked t := by
  simp only [step] at stepped
  split at stepped
  · cases stepped
    refine ⟨?_,?_,tracked.settled⟩
    · exact tracked.flag.trans (txtKeepsRecord agent s.record).symm
    · exact (txtKeepsPort agent s.record).trans tracked.port
  · cases stepped
    exact tracked

theorem commissionerPosts {next : KeyState} (stepped : step s (.commissioner next) = some t) : Posts s t := by
  simp only [step] at stepped
  split at stepped
  · cases stepped
    exact ⟨rfl,rfl,rfl,.inr rfl⟩
  · cases stepped

theorem trackedUnder (under : sharing.Under Steady s) : Tracked s := by
  refine underInvariant Tracked ?_ ?_ under
  · rintro s rfl
    exact ⟨rfl,rfl,fun _ => rfl⟩
  · intro s l t tracked steady stepped
    cases l with
    | start port picked tapFails startFails =>
      cases stepped
      exact postsTracked tracked (startPosts port picked tapFails startFails s)
    | stop =>
      cases stepped
      exact postsTracked tracked (endPosts s)
    | expire =>
      cases stepped
      exact postsTracked tracked (endPosts s)
    | commissioner next => exact postsTracked tracked (commissionerPosts stepped)
    | callback agent => exact callbackTracked tracked steady stepped
    | serviceChanged agent => exact serviceTracked tracked stepped

theorem trackedAdvertised (tracked : Tracked s) : Advertised s := by
  intro settled
  have seen := tracked.port.trans (tracked.settled settled)
  cases active : s.key.active with
  | true =>
    rw [active, if_pos rfl] at seen
    obtain ⟨r,found,same⟩ := Option.map_eq_some_iff.mp seen
    refine ⟨by rw [found]; rfl,tracked.flag,fun other mem => ?_⟩
    rw [found] at mem
    cases mem
    exact same
  | false =>
    rw [active, if_neg Bool.false_ne_true, Option.map_eq_none_iff] at seen
    refine ⟨by rw [seen]; rfl,tracked.flag,fun other mem => ?_⟩
    rw [seen] at mem
    cases mem

theorem movedStale {l : Label} (tracked : Tracked s) (bad : ¬Steady s l)
    (stepped : sharing.step s l = some t) : ¬Advertised t := by
  intro advertised
  cases l with
  | callback agent =>
    have found := eq_true_of_ne_false bad
    simp only [moved,Bool.and_eq_true,Option.any_eq_true] at found
    obtain ⟨active,old,seen,different⟩ := found
    have port := tracked.port
    rw [seen] at port
    obtain ⟨r,record,same⟩ := Option.map_eq_some_iff.mp port
    have up : s.published = true := by rw [tracked.flag, record]; rfl
    simp only [sharing,step,shareStateCb,active,up,Bool.not_true,Bool.and_false,Bool.and_true,
      Bool.false_eq_true,if_false] at stepped
    split at stepped
    · cases stepped
      have stale := (advertised rfl).2.2 r record
      exact absurd (same.symm.trans stale) (bne_iff_ne.mp different)
    · cases stepped
  | start port picked tapFails startFails => exact bad rfl
  | stop => exact bad rfl
  | expire => exact bad rfl
  | commissioner next => exact bad rfl
  | serviceChanged agent => exact bad rfl

/- While no run of the callback finds the key moved, the record is right whenever no callback
is outstanding; the first run that does leaves it wrong. -/
theorem recordExact (under : sharing.Under Steady s) :
    Advertised s ∧ ∀ l t, ¬Steady s l → sharing.step s l = some t → ¬Advertised t :=
  ⟨trackedAdvertised (trackedUnder under),fun _ _ => movedStale (trackedUnder under)⟩

def seenApart : List Label :=
  [.start 0 49152 false false,.callback true,.stop,.callback true,.start 0 49153 false false,.callback true]

theorem recordExactApart : ∃ s, Advertised s ∧ s.outstanding = false ∧ s.record = some ⟨49153,true⟩ := by
  have all : sharing.Meets Steady boot seenApart := by decide
  have ran : (sharing.run boot seenApart).any (fun s =>
      !s.outstanding && decide (s.record = some ⟨49153,true⟩)) = true := by decide
  obtain ⟨s,under,ends⟩ := underEnds Steady rfl all ran
  simp only [Bool.and_eq_true,Bool.not_eq_true',decide_eq_true_eq] at ends
  exact ⟨s,(recordExact under).1,ends⟩

/- A share retry: a stop and a start with nothing between, and the stack picks another port. -/
def retried : List Label :=
  [.start 0 49152 false false,.callback true,.stop,.start 0 49153 false false,.callback true]

/- The callback finds a key active and its flag set, and leaves the port of the old key up. -/
theorem retryStale : ¬∀ s, sharing.Reachable s → Advertised s := by
  intro all
  have ran : (sharing.run boot retried).any (fun s => !decide (Advertised s)) = true := by decide
  obtain ⟨s,reached,stale⟩ := runEnds rfl ran
  simp [all s reached] at stale

end EpskcCommissioner.ShareRecord

import EpskcCommissioner.EpskcParser
import EpskcCommissioner.FactoryReset

/-! The bodies `enable` and `disable`: `otbr_rest_parse_toggle`, and the PUT halves of `h_state`
and `h_epskc_state`, which differ in their buffer and in what they switch. -/
namespace EpskcCommissioner.RestToggle
open WifiDriver ThreadJoin CBytes CString DatasetHex EpskcGrammar EpskcParser
open FactoryReset (espErrInvalidState)

def word : Bool → List UInt8
  | true => [0x65,0x6e,0x61,0x62,0x6c,0x65]
  | false => [0x64,0x69,0x73,0x61,0x62,0x6c,0x65]

/- `strncmp` with the length of the literal finds no difference; it reads up to the first one. -/
def startsWith : List UInt8 → List UInt8 → Checked Bool
  | [], _ => .ok true
  | c :: literal, p => do
    let d ← charAt p
    if d = c then startsWith literal p.tail else return false

def toggleWord (p : List UInt8) : Checked (Option (Bool × List UInt8)) := do
  if ← startsWith (word true) p then return some (true,p.drop (word true).length)
  else if ← startsWith (word false) p then return some (false,p.drop (word false).length)
  else return none

def toggleEnd (on : Bool) (p : List UInt8) : Checked (Option Bool) := do
  let p ← skipWhile isSpace p
  let c ← charAt p
  return if c = 0 then some on else none

/- Nothing is where it returns false; what it has left in `*on` is not used then. -/
def otbrRestParseToggle (body : List UInt8) : Checked (Option Bool) := do
  let p ← skipWhile isSpace body
  let c ← charAt p
  match ← toggleWord (if c = quote then p.tail else p) with
  | none => return none
  | some (on,p) =>
    if c = quote then
      let closes ← charAt p
      if closes ≠ quote then return none else toggleEnd on p.tail
    else toggleEnd on p

/- What a body may be: the word or the word as a JSON string, with white space around it. -/
inductive Toggle : List UInt8 → Bool → Prop where
  | bare (before : Blank) (on : Bool) (after : Blank) : Toggle (before.1 ++ (word on ++ after.1)) on
  | quoted (before : Blank) (on : Bool) (after : Blank) :
    Toggle (before.1 ++ quote :: (word on ++ quote :: after.1)) on

/- The PUT half of the two handlers: `apply` is what runs on the worker, and whether it is
done; `accepted` is what `ui_run_on_worker` returns, and a call that it does not accept never
runs. -/
def hToggle {State : Type} (size : Nat) (refused : String) (apply : Bool → State → State × Bool) (accepted : Bool)
    (contentLen : Nat) (reads : List (List UInt8)) (s : State) : Checked (State × Reply) :=
  if size ≤ contentLen then .ok (s,⟨"413 Content Too Large","\"body too long\""⟩)
  else
    match recvBody contentLen reads size with
    | none | some [] => .ok (s,badRequest "\"could not read body\"")
    | some body => do
      match ← otbrRestParseToggle (terminated body) with
      | none => return (s,badRequest "\"expected enable or disable\"")
      | some on =>
        if !accepted then return (s,⟨"409 Conflict",refused⟩)
        else
          let (t,done) := apply on s
          return (t,if done then ⟨"200 OK",if on then "\"enabled\"" else "\"disabled\""⟩
            else ⟨"409 Conflict",refused⟩)

/- What `otIp6SetEnabled` and `otThreadSetEnabled` return. -/
structure Enabling where
  ip6 : Bool
  thread : Bool
  deriving DecidableEq, Repr

def threadSetEnabled (o : Enabling) (on : Bool) (s : Thread) : Thread × EspErr :=
  if !s.ready then (s,espErrInvalidState)
  else
    let s := if on then s else forgetTopology s
    if !o.ip6 then (s,espFail)
    else
      let s := {s with ip6Enabled := on}
      if !o.thread then (s,espFail) else ({s with enabled := on},espOk)

def hState (o : Enabling) : Bool → Nat → List (List UInt8) → Thread → Checked (Thread × Reply) :=
  hToggle 16 "\"could not change state\"" fun on s =>
    let (t,result) := threadSetEnabled o on s
    (t,result = espOk)

/- The ephemeral-key feature of OpenThread: whether the stack runs, whether `share_state_cb`
is set, and whether the feature is on. -/
structure Feature where
  ready : Bool
  shareCbSet : Bool
  enabled : Bool
  deriving DecidableEq, Repr

def threadEpskcSetFeatureEnabled (on : Bool) (s : Feature) : Feature :=
  if !s.ready then s else {s with shareCbSet := s.shareCbSet || on, enabled := on}

/- The job is done whatever became of it. -/
def hEpskcState : Bool → Nat → List (List UInt8) → Feature → Checked (Feature × Reply) :=
  hToggle 24 "\"could not change ePSKc state\"" fun on s => (threadEpskcSetFeatureEnabled on s,true)

variable {text rest : List UInt8}

theorem startsWithTerminated (literal text : List UInt8) (plain : 0 ∉ literal) :
    startsWith literal (terminated text) = .ok (literal.isPrefixOf text) := by
  induction literal generalizing text with
  | nil => rfl
  | cons c literal ih =>
    obtain ⟨numbered,plain⟩ := not_or.mp (fun mem => plain (List.mem_cons.mpr mem))
    rw [startsWith, charAtTerminated, okBind]
    cases text with
    | nil => rw [if_neg (by exact numbered)]; rfl
    | cons d text =>
      rw [terminatedTail, List.headD_cons, List.isPrefixOf_cons_cons]
      by_cases same : d = c
      · rw [if_pos same, ih text plain, same, beq_self_eq_true, Bool.true_and]
      · have apart : (c == d) = false := beq_false_of_ne (Ne.symm same)
        rw [if_neg same, apart]
        rfl

theorem dropWord (literal rest : List UInt8) :
    (terminated (literal ++ rest)).drop literal.length = terminated rest := by
  rw [terminated, List.append_assoc, List.drop_left]
  rfl

theorem wordReads (on : Bool) (rest : List UInt8) :
    toggleWord (terminated (word on ++ rest)) = .ok (some (on,terminated rest)) := by
  cases on with
  | true =>
    have found : (word true).isPrefixOf (word true ++ rest) = true :=
      List.isPrefixOf_iff_prefix.mpr (List.prefix_append ..)
    rw [toggleWord, startsWithTerminated _ _ (by decide), okBind, found, dropWord]
    rfl
  | false =>
    have found : (word false).isPrefixOf (word false ++ rest) = true :=
      List.isPrefixOf_iff_prefix.mpr (List.prefix_append ..)
    have other : (word true).isPrefixOf (word false ++ rest) = false := rfl
    rw [toggleWord, startsWithTerminated _ _ (by decide), okBind, other]
    rw [startsWithTerminated _ _ (by decide), okBind, found, dropWord]
    rfl

theorem wordScans (text : List UInt8) : toggleWord (terminated text) = .ok none ∨
    ∃ (on : Bool) (rest : List UInt8), text = word on ++ rest := by
  by_cases found : ∃ on, (word on).isPrefixOf text = true
  · obtain ⟨on,found⟩ := found
    obtain ⟨rest,same⟩ := List.isPrefixOf_iff_prefix.mp found
    exact .inr ⟨on,rest,same.symm⟩
  · have none : ∀ on, (word on).isPrefixOf text = false := fun on => Bool.eq_false_iff.mpr fun yes => found ⟨on,yes⟩
    refine .inl ?_
    rw [toggleWord, startsWithTerminated _ _ (by decide), okBind, none true]
    rw [startsWithTerminated _ _ (by decide), okBind, none false]
    rfl

theorem wordHead (on : Bool) (rest : List UInt8) :
    isSpace ((word on ++ rest).headD 0) = false ∧ (word on ++ rest).headD 0 ≠ quote := by
  cases on with
  | true => exact ⟨rfl,show (0x65 : UInt8) ≠ quote by decide⟩
  | false => exact ⟨rfl,show (0x64 : UInt8) ≠ quote by decide⟩

theorem endReads (on : Bool) (after : Blank) : toggleEnd on (terminated after.1) = .ok (some on) := by
  rw [toggleEnd, skipAll, okBind]
  rfl

theorem endScans (on : Bool) (plain : 0 ∉ text) : toggleEnd on (terminated text) = .ok none ∨
    ∃ after : Blank, text = after.1 := by
  obtain ⟨after,rest,rfl,_,skipped⟩ := skipSplits text
  rw [toggleEnd, skipped, okBind, charAtTerminated, okBind]
  cases rest with
  | nil => exact .inr ⟨after,List.append_nil _⟩
  | cons c rest =>
    have numbered : c ≠ 0 := by
      rintro rfl
      exact plain (List.mem_append_right _ List.mem_cons_self)
    exact .inl (by rw [List.headD_cons, if_neg numbered]; rfl)

theorem parseReads {on : Bool} (toggle : Toggle text on) : otbrRestParseToggle (terminated text) = .ok (some on) := by
  cases toggle with
  | bare before on after =>
    obtain ⟨token,open'⟩ := wordHead on after.1
    rw [otbrRestParseToggle, skipBlank before _ token, okBind, charAtTerminated, okBind, if_neg open', wordReads,
      okBind]
    dsimp only
    rw [if_neg open', endReads]
  | quoted before on after =>
    rw [otbrRestParseToggle, skipBlank before _ rfl, okBind, charAtTerminated, okBind, List.headD_cons, if_pos rfl,
      terminatedTail, wordReads, okBind]
    dsimp only
    rw [if_pos rfl, charAtTerminated, okBind, List.headD_cons, if_neg (fun apart => apart rfl), terminatedTail, endReads]

theorem parseScans (plain : 0 ∉ text) : otbrRestParseToggle (terminated text) = .ok none ∨
    ∃ on, Toggle text on := by
  obtain ⟨before,rest,rfl,_,skipped⟩ := skipSplits text
  have inside : ∀ {c}, c ∈ rest → c ∈ before.1 ++ rest := List.mem_append_right _
  rw [otbrRestParseToggle, skipped, okBind, charAtTerminated, okBind]
  by_cases opens : rest.headD 0 = quote
  · obtain ⟨rest,rfl⟩ := headRead opens (by decide)
    rw [List.headD_cons, if_pos rfl, terminatedTail]
    rcases wordScans rest with none | ⟨on,rest,rfl⟩
    · exact .inl (by rw [none]; rfl)
    · rw [wordReads, okBind]
      dsimp only
      rw [if_pos rfl, charAtTerminated, okBind]
      by_cases closes : rest.headD 0 = quote
      · obtain ⟨rest,rfl⟩ := headRead closes (by decide)
        rw [List.headD_cons, if_neg (fun apart => apart rfl), terminatedTail]
        have clean : 0 ∉ rest := fun mem =>
          plain (inside (List.mem_cons_of_mem _ (List.mem_append_right _ (List.mem_cons_of_mem _ mem))))
        rcases endScans on clean with none | ⟨after,rfl⟩
        · exact .inl none
        · exact .inr ⟨on,.quoted before on after⟩
      · exact .inl (if_pos closes)
  · rw [if_neg opens]
    rcases wordScans rest with none | ⟨on,rest,rfl⟩
    · exact .inl (by rw [none]; rfl)
    · rw [wordReads, okBind]
      dsimp only
      rw [if_neg opens]
      have clean : 0 ∉ rest := fun mem => plain (inside (List.mem_append_right _ mem))
      rcases endScans on clean with none | ⟨after,rfl⟩
      · exact .inl none
      · exact .inr ⟨on,.bare before on after⟩

/- The parser stays inside every string, and takes exactly the bodies of the grammar. -/
theorem parserExact (plain : 0 ∉ text) : ∃ result, otbrRestParseToggle (terminated text) = .ok result ∧
    ∀ on, result = some on ↔ Toggle text on := by
  have reads : ∀ on, Toggle text on → otbrRestParseToggle (terminated text) = .ok (some on) := fun _ => parseReads
  rcases parseScans plain with none | ⟨on,toggle⟩
  · refine ⟨Option.none,none,fun on => ⟨nofun,fun toggle => ?_⟩⟩
    exact Except.ok.inj (none.symm.trans (reads on toggle))
  · refine ⟨some on,reads on toggle,fun other => ⟨fun same => Option.some.inj same ▸ toggle,fun also => ?_⟩⟩
    exact Except.ok.inj ((reads on toggle).symm.trans (reads other also))

/- What became of a PUT: its body was of the grammar and the worker made the change or failed in
it, or nothing was done; and that only where there was no such body or the worker did not
take it. -/
inductive Put {State : Type} (apply : Bool → State → State × Bool) (accepted : Bool) (received : Option (List UInt8))
    (s : State) : State → Reply → Prop where
  | changed {body : List UInt8} {on : Bool} (given : received = some body) (toggle : Toggle body on)
    (done : (apply on s).2 = true) : Put apply accepted received s (apply on s).1
      ⟨"200 OK",if on then "\"enabled\"" else "\"disabled\""⟩
  | failed {body : List UInt8} {on : Bool} (refused : String) (given : received = some body) (toggle : Toggle body on)
    (undone : (apply on s).2 = false) : Put apply accepted received s (apply on s).1 ⟨"409 Conflict",refused⟩
  | refused (reply : Reply) (unchanged : reply.status ≠ "200 OK")
    (unasked : accepted = true → ∀ body on, received = some body → ¬Toggle body on) :
    Put apply accepted received s s reply

theorem noToggle (on : Bool) : ¬Toggle [] on := by
  intro toggle
  generalize none : ([] : List UInt8) = body at toggle
  cases toggle with
  | bare before on after =>
    cases on <;> exact absurd (congrArg List.length none) (by simp [word])
  | quoted before on after => exact absurd (congrArg List.length none) (by simp)

theorem putToggles {State : Type} (size : Nat) (refused : String) (apply : Bool → State → State × Bool) (accepted : Bool)
    (contentLen : Nat) (reads : List (List UInt8)) (s : State) :
    ∃ t reply, hToggle size refused apply accepted contentLen reads s = .ok (t,reply) ∧
      Put apply accepted (recvBody contentLen reads size) s t reply := by
  unfold hToggle
  by_cases long : size ≤ contentLen
  · have nothing : recvBody contentLen reads size = none := by simp [recvBody,long]
    rw [if_pos long, nothing]
    exact ⟨_,_,rfl,.refused _ (by decide) fun _ body on none => by simp at none⟩
  · rw [if_neg long]
    cases received : recvBody contentLen reads size with
    | none => exact ⟨_,_,rfl,.refused _ (by decide) fun _ body on none => by simp at none⟩
    | some body =>
      cases body with
      | nil =>
        refine ⟨_,_,rfl,.refused _ (by decide) fun _ body on same => ?_⟩
        cases Option.some.inj same
        exact noToggle on
      | cons c body =>
        obtain ⟨result,parsed,exact⟩ := parserExact (receivedPlain received)
        dsimp only
        rw [parsed, okBind]
        cases result with
        | none =>
          refine ⟨_,_,rfl,.refused _ (by decide) fun _ body on same toggle => ?_⟩
          cases Option.some.inj same
          exact absurd ((exact on).mpr toggle) (Option.some_ne_none on).symm
        | some on =>
          have toggle := (exact on).mp rfl
          cases accepted with
          | false => exact ⟨_,_,rfl,.refused _ (show "409 Conflict" ≠ "200 OK" by decide) fun yes => by simp at yes⟩
          | true =>
            cases done : (apply on s).2 with
            | true =>
              refine ⟨_,_,?_,.changed rfl toggle done⟩
              simp only [Bool.not_true,Bool.false_eq_true,if_false,done,if_true]
              rfl
            | false =>
              refine ⟨_,_,?_,.failed refused rfl toggle done⟩
              simp only [Bool.not_true,Bool.false_eq_true,if_false,done]
              rfl

theorem putDone {State : Type} {apply : Bool → State → State × Bool} {accepted : Bool} {received : Option (List UInt8)}
    {s t : State} {reply : Reply} (put : Put apply accepted received s t reply) (answered : reply.status = "200 OK") :
    ∃ body on, received = some body ∧ Toggle body on ∧ (apply on s).2 = true ∧ t = (apply on s).1 := by
  cases put with
  | changed given toggle done => exact ⟨_,_,given,toggle,done,rfl⟩
  | failed => exact absurd answered (show "409 Conflict" ≠ "200 OK" by decide)
  | refused _ unchanged => exact absurd answered unchanged

theorem setEnabledDone {o : Enabling} {on : Bool} {s : Thread} (done : (threadSetEnabled o on s).2 = espOk) :
    (threadSetEnabled o on s).1.enabled = on ∧ (threadSetEnabled o on s).1.ip6Enabled = on := by
  revert done
  unfold threadSetEnabled
  split
  · exact fun failed => absurd failed (show espErrInvalidState ≠ espOk by decide)
  · dsimp only
    split
    · exact fun failed => absurd failed failNotOk
    · split
      · exact fun failed => absurd failed failNotOk
      · exact fun _ => ⟨rfl,rfl⟩

/- The parser takes exactly the grammar, and a PUT that is answered with success has switched
what its body says; only the ephemeral-key feature is answered so although the stack does not
run and nothing is changed. -/
theorem togglesExact :
    (∀ body : List UInt8, 0 ∉ body → ∃ result, otbrRestParseToggle (terminated body) = .ok result ∧
      ∀ on, result = some on ↔ Toggle body on) ∧
    (∀ (o : Enabling) (accepted : Bool) (contentLen : Nat) (reads : List (List UInt8)) (s : Thread),
      ∃ t reply, hState o accepted contentLen reads s = .ok (t,reply) ∧
        Put (fun on s => ((threadSetEnabled o on s).1,(threadSetEnabled o on s).2 = espOk)) accepted
          (recvBody contentLen reads 16) s t reply ∧
        (reply.status = "200 OK" → ∃ body, recvBody contentLen reads 16 = some body ∧ Toggle body t.enabled ∧
          t.ip6Enabled = t.enabled)) ∧
    ∀ (accepted : Bool) (contentLen : Nat) (reads : List (List UInt8)) (s : Feature),
      ∃ t reply, hEpskcState accepted contentLen reads s = .ok (t,reply) ∧
        Put (fun on s => (threadEpskcSetFeatureEnabled on s,true)) accepted (recvBody contentLen reads 24) s t reply ∧
        (reply.status = "200 OK" → ∃ body on, recvBody contentLen reads 24 = some body ∧ Toggle body on ∧
          (s.ready = true → t.enabled = on) ∧ (s.ready = false → t = s)) := by
  refine ⟨fun body plain => parserExact plain,?_,?_⟩
  · intro o accepted contentLen reads s
    obtain ⟨t,reply,ran,put⟩ := putToggles 16 "\"could not change state\""
      (fun on s => ((threadSetEnabled o on s).1,decide ((threadSetEnabled o on s).2 = espOk))) accepted contentLen reads s
    refine ⟨t,reply,ran,put,fun answered => ?_⟩
    obtain ⟨body,on,given,toggle,done,rfl⟩ := putDone put answered
    obtain ⟨enabled,ip6⟩ := setEnabledDone (of_decide_eq_true done)
    refine ⟨body,given,?_,ip6.trans enabled.symm⟩
    rw [enabled]
    exact toggle
  · intro accepted contentLen reads s
    obtain ⟨t,reply,ran,put⟩ := putToggles 24 "\"could not change ePSKc state\""
      (fun on s => (threadEpskcSetFeatureEnabled on s,true)) accepted contentLen reads s
    refine ⟨t,reply,ran,put,fun answered => ?_⟩
    obtain ⟨body,on,given,toggle,_,rfl⟩ := putDone put answered
    refine ⟨body,on,given,toggle,fun ready => ?_,fun down => ?_⟩
    · simp [threadEpskcSetFeatureEnabled,ready]
    · simp [threadEpskcSetFeatureEnabled,down]

/- `"disable"` as a JSON string with a line end behind it, and a network that it switches off. -/
def disableBody : List UInt8 := quote :: (word false ++ [quote,0x0a])

theorem disableToggle : Toggle disableBody false :=
  .quoted ⟨[],List.forall_mem_nil _⟩ false ⟨[0x0a],by decide⟩

theorem toggleOnce (plain : 0 ∉ text) {on other : Bool} (toggle : Toggle text on) (also : Toggle text other) :
    on = other := by
  obtain ⟨result,_,exact⟩ := parserExact plain
  exact Option.some.inj (((exact on).mpr toggle).symm.trans ((exact other).mpr also))

theorem putChanged {State : Type} {apply : Bool → State → State × Bool} {body : List UInt8} {on : Bool}
    {s t : State} {reply : Reply} (put : Put apply true (some body) s t reply) (plain : 0 ∉ body)
    (toggle : Toggle body on) (done : (apply on s).2 = true) :
    t = (apply on s).1 ∧ reply = ⟨"200 OK",if on then "\"enabled\"" else "\"disabled\""⟩ := by
  cases put with
  | changed given other =>
    cases Option.some.inj given
    cases toggleOnce plain toggle other
    exact ⟨rfl,rfl⟩
  | failed _ given other undone =>
    cases Option.some.inj given
    cases toggleOnce plain toggle other
    rw [done] at undone
    cases undone
  | refused _ _ unasked => exact absurd toggle (unasked rfl body on rfl)

theorem togglesExactQuoted :
    otbrRestParseToggle (terminated disableBody) = .ok (some false) ∧
    hState ⟨true,true⟩ true 10 [disableBody] FactoryReset.detached =
      .ok (⟨true,none,false,false,false,.never⟩,⟨"200 OK","\"disabled\""⟩) ∧
    hEpskcState true 10 [disableBody] ⟨true,true,true⟩ = .ok (⟨true,true,false⟩,⟨"200 OK","\"disabled\""⟩) := by
  have plain : 0 ∉ disableBody := by decide
  refine ⟨?_,?_,?_⟩
  · obtain ⟨result,ran,exact⟩ := togglesExact.1 disableBody plain
    rw [ran, (exact false).mpr disableToggle]
  · obtain ⟨t,reply,ran,put,_⟩ :=
      togglesExact.2.1 ⟨true,true⟩ true 10 [disableBody] FactoryReset.detached
    obtain ⟨rfl,rfl⟩ := putChanged put plain disableToggle rfl
    exact ran
  · obtain ⟨t,reply,ran,put,_⟩ := togglesExact.2.2 true 10 [disableBody] ⟨true,true,true⟩
    obtain ⟨rfl,rfl⟩ := putChanged put plain disableToggle rfl
    exact ran

end EpskcCommissioner.RestToggle

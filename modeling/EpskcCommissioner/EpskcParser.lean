import EpskcCommissioner.EpskcGrammar
import Mathlib.Data.List.Perm.Subperm

/-! The parser of the options against their grammar: every part of a text that the grammar
writes is read as such, and what is read is always such a part. -/
namespace EpskcCommissioner.EpskcParser
open WifiDriver CBytes CString DatasetHex EpskcOptions EpskcGrammar

variable {text rest key : List UInt8} {s t : Args} {members : List Member}

theorem digitPlain {c : UInt8} (digit : isDecimal c = true) :
    isSpace c = false ∧ c ≠ minus ∧ c ≠ plus := by
  revert digit
  exact Hex.forallBytes (p := fun c => isDecimal c = true → isSpace c = false ∧ c ≠ minus ∧ c ≠ plus)
    (by decide +kernel) c

theorem skipBlank (blank : Blank) (rest : List UInt8) (token : isSpace (rest.headD 0) = false) :
    skipWhile isSpace (terminated (blank.1 ++ rest)) = .ok (terminated rest) :=
  skipWhileAppend rfl blank.2 token

theorem skipNone (token : isSpace (text.headD 0) = false) :
    skipWhile isSpace (terminated text) = .ok (terminated text) :=
  skipBlank ⟨[],List.forall_mem_nil _⟩ text token

theorem skipAll (blank : Blank) : skipWhile isSpace (terminated blank.1) = .ok (terminated []) := by
  rw [← skipBlank blank [] rfl, List.append_nil]

theorem skipSplits (text : List UInt8) : ∃ (blank : Blank) (rest : List UInt8), text = blank.1 ++ rest ∧
    isSpace (rest.headD 0) = false ∧ skipWhile isSpace (terminated text) = .ok (terminated rest) := by
  obtain ⟨blank,rest,split,spaces,token,skipped⟩ := skipWhileSplits (p := isSpace) rfl text
  exact ⟨⟨blank,spaces⟩,rest,split,token,skipped⟩

theorem takeBefore (text rest : List UInt8) :
    (terminated (text ++ rest)).take ((terminated (text ++ rest)).length - (terminated rest).length) = text := by
  have long : (terminated (text ++ rest)).length - (terminated rest).length = text.length := by
    simp only [terminatedLength,List.length_append]
    omega
  rw [long, terminated, List.append_assoc, List.take_left]

theorem keyLength (text rest : List UInt8) :
    (terminated (text ++ rest)).length - (terminated rest).length = text.length := by
  simp only [terminatedLength,List.length_append]
  omega

section integers

variable (n : Integer)

theorem integerSplits : ∃ d ds, n.digits = d :: ds ∧ isDecimal d = true := by
  obtain ⟨d,ds,split⟩ := List.exists_cons_of_ne_nil n.long
  exact ⟨d,ds,split,n.all d (split ▸ List.mem_cons_self)⟩

theorem digitsSkipped (ends : isDecimal (rest.headD 0) = false) :
    skipWhile isDecimal (terminated (n.digits ++ rest)) = .ok (terminated rest) :=
  skipWhileAppend rfl n.all ends

theorem integerHead : isSpace ((n.text ++ rest).headD 0) = false := by
  obtain ⟨d,ds,split,digit⟩ := integerSplits n
  unfold Integer.text
  split
  · rfl
  · rw [split]
    exact (digitPlain digit).1

theorem strtolReads (ends : isDecimal (rest.headD 0) = false) : strtol (terminated (n.text ++ rest)) =
    .ok (if n.value < longMin then ⟨longMin,terminated rest,true⟩
      else if longMax < n.value then ⟨longMax,terminated rest,true⟩
      else ⟨n.value,terminated rest,false⟩) := by
  obtain ⟨d,ds,split,digit⟩ := integerSplits n
  have head : isSpace ((n.text ++ rest).headD 0) = false := integerHead n
  have here := skipNone head
  have skipped := digitsSkipped n ends
  have more : (terminated rest).length ≠ (terminated (n.digits ++ rest)).length := by
    rw [terminatedLength, terminatedLength, List.length_append, split, List.length_cons]
    omega
  unfold strtol
  rw [here, okBind]
  unfold Integer.text Integer.value
  cases n.negative with
  | true =>
    simp only [if_true,List.cons_append,charAtTerminated,List.headD_cons,okBind,true_or,terminatedTail,skipped,
      takeBefore,if_neg more]
    rfl
  | false =>
    have first : (n.digits ++ rest).headD 0 = d := by rw [split]; rfl
    obtain ⟨_,noMinus,noPlus⟩ := digitPlain digit
    simp only [Bool.false_eq_true,if_false,charAtTerminated,first,okBind,noMinus,noPlus,or_self,skipped,
      takeBefore,if_neg more]
    rfl

theorem digitsEndReads (ends : isDecimal (rest.headD 0) = false) :
    digitsEnd (terminated (n.digits ++ rest)) = .ok (some (terminated rest)) := by
  obtain ⟨d,ds,split,digit⟩ := integerSplits n
  have tail : ∀ c ∈ ds, isDecimal c = true := fun c mem => n.all c (split ▸ List.mem_cons_of_mem _ mem)
  unfold digitsEnd
  rw [split, List.cons_append, charAtTerminated, List.headD_cons, okBind, terminatedTail]
  split
  · rename_i single
    have one := n.plain (by rw [split,single]; rfl)
    rw [split, List.length_cons] at one
    have nothing : ds = [] := List.eq_nil_of_length_eq_zero (by omega)
    rw [nothing, List.nil_append, charAtTerminated, okBind, ends]
    rfl
  · rw [skipWhileAppend rfl tail ends]
    rfl

theorem numberEndReads (ends : isDecimal (rest.headD 0) = false) :
    numberEnd (terminated (n.text ++ rest)) = .ok (some (terminated rest)) := by
  obtain ⟨d,ds,split,digit⟩ := integerSplits n
  have read := digitsEndReads n ends
  unfold numberEnd Integer.text
  rw [charAtTerminated, okBind]
  cases n.negative with
  | true => exact read
  | false =>
    have first : (n.digits ++ rest).headD 0 = d := by rw [split]; rfl
    simp only [Bool.false_eq_true,if_false,first,(digitPlain digit).2.1]
    exact read

end integers

theorem digitsEndScans (text : List UInt8) : digitsEnd (terminated text) = .ok none ∨
    ∃ (n : Integer) (rest : List UInt8), text = n.digits ++ rest ∧ isDecimal (rest.headD 0) = false := by
  cases text with
  | nil => exact .inl rfl
  | cons d text =>
    unfold digitsEnd
    rw [charAtTerminated, List.headD_cons, okBind, terminatedTail, charAtTerminated, okBind]
    by_cases single : d = zero
    · cases more : isDecimal (text.headD 0) with
      | true => exact .inl (by rw [if_pos single]; rfl)
      | false => exact .inr ⟨⟨false,[d],by simp,by simp [single,zero,isDecimal],fun _ => rfl⟩,text,rfl,more⟩
    · cases digit : isDecimal d with
      | false => exact .inl (by rw [if_neg single]; rfl)
      | true =>
        obtain ⟨digits,rest,rfl,all,ends,_⟩ := skipWhileSplits (p := isDecimal) rfl text
        refine .inr ⟨⟨false,d :: digits,List.cons_ne_nil _ _,?_,?_⟩,rest,rfl,ends⟩
        · intro c mem
          rcases List.mem_cons.mp mem with rfl | mem
          · exact digit
          · exact all c mem
        · exact fun first => absurd (Option.some.inj first) single

theorem numberEndScans (text : List UInt8) : numberEnd (terminated text) = .ok none ∨
    ∃ (n : Integer) (rest : List UInt8), text = n.text ++ rest ∧ isDecimal (rest.headD 0) = false := by
  unfold numberEnd
  rw [charAtTerminated, okBind]
  by_cases sign : text.headD 0 = minus
  · obtain ⟨text,rfl⟩ := headRead sign (by decide)
    rw [if_pos sign, terminatedTail]
    rcases digitsEndScans text with none | ⟨n,rest,rfl,ends⟩
    · exact .inl none
    · exact .inr ⟨{n with negative := true},rest,rfl,ends⟩
  · rw [if_neg sign]
    rcases digitsEndScans text with none | ⟨n,rest,split,ends⟩
    · exact .inl none
    · exact .inr ⟨{n with negative := false},rest,split,ends⟩

theorem storeKey (key : Key) (value : Int) (after : List UInt8) (s : Args) :
    store (terminated (key.text ++ after)) key.text.length value s =
      if seen s key = false then some (assign key value s) else none := by
  have taken : (terminated (key.text ++ after)).take key.text.length = key.text := by
    rw [terminated, List.append_assoc, List.take_left]
  unfold store
  rw [taken]
  cases key with
  | lifetime =>
    have other : ¬(Key.lifetime.text.length = 4 ∧ Key.lifetime.text = portKey ∧ s.sawPort = false) :=
      fun wrong => absurd wrong.1 (by decide)
    rw [if_neg other]
    cases s with
    | mk lifetime port sawLifetime sawPort => cases sawLifetime <;> rfl
  | port =>
    have other : ¬(Key.port.text.length = 8 ∧ Key.port.text = lifetimeKey ∧ s.sawLifetime = false) :=
      fun wrong => absurd wrong.1 (by decide)
    rw [if_neg other]
    cases s with
    | mk lifetime port sawLifetime sawPort => cases sawPort <;> rfl

theorem storeOther {word after : List UInt8} (other : ∀ key : Key, word ≠ key.text) (value : Int) (s : Args) :
    store (terminated (word ++ after)) word.length value s = none := by
  have taken : (terminated (word ++ after)).take word.length = word := by
    rw [terminated, List.append_assoc, List.take_left]
  unfold store
  rw [taken, if_neg (fun same => other .lifetime same.2.1), if_neg (fun same => other .port same.2.1)]

theorem readValueReads (n : Integer) (ends : isDecimal (rest.headD 0) = false) (keyLen : Nat) (s : Args) :
    readValue key keyLen (terminated (n.text ++ rest)) s =
      .ok (if n.Fits then (store key keyLen n.value s).map (fun t => (terminated rest,t)) else none) := by
  unfold readValue
  rw [numberEndReads n ends, okBind]
  simp only
  rw [strtolReads n ends, okBind]
  by_cases low : n.value < longMin
  · have outside : ¬n.Fits := fun fits => absurd fits.1 (Int.not_le.mpr low)
    rw [if_pos low, if_pos (.inr rfl), if_neg outside]
    rfl
  · by_cases high : longMax < n.value
    · have outside : ¬n.Fits := fun fits => absurd fits.2 (Int.not_le.mpr high)
      rw [if_neg low, if_pos high, if_pos (.inr rfl), if_neg outside]
      rfl
    · have fits : n.Fits := ⟨Int.not_lt.mp low,Int.not_lt.mp high⟩
      rw [if_neg low, if_neg high, if_neg (by simp), if_pos fits]
      rfl

theorem readValueScans (word after text : List UInt8) (s : Args) :
    readValue (terminated (word ++ after)) word.length (terminated text) s = .ok none ∨
      ∃ (key : Key) (n : Integer) (rest : List UInt8), word = key.text ∧ text = n.text ++ rest ∧
        isDecimal (rest.headD 0) = false := by
  rcases numberEndScans text with none | ⟨n,rest,split,ends⟩
  · refine .inl ?_
    unfold readValue
    rw [none]
    rfl
  · by_cases known : ∃ key : Key, word = key.text
    · obtain ⟨key,same⟩ := known
      exact .inr ⟨key,n,rest,same,split,ends⟩
    · refine .inl ?_
      rw [split, readValueReads n ends, storeOther (not_exists.mp known)]
      split <;> rfl

theorem keyPlain (key : Key) : ∀ c ∈ key.text, inKey c = true :=
  List.all_eq_true.mp (by cases key <;> decide)

theorem memberReads (m : Member) (ends : isDecimal (rest.headD 0) = false) (s : Args) :
    member (terminated (m.text ++ rest)) s = .ok ((m.store s).map (fun t => (terminated rest,t))) := by
  have whole : m.text ++ rest = quote :: (m.key.text ++ quote ::
      (m.beforeColon.1 ++ colon :: (m.beforeValue.1 ++ (m.value.text ++ rest)))) := by
    simp only [Member.text,List.cons_append,List.append_assoc]
  unfold member
  rw [whole, charAtTerminated, List.headD_cons, okBind, if_neg (not_not.mpr rfl), terminatedTail]
  simp only
  rw [skipWhileAppend rfl (keyPlain m.key) rfl, okBind, charAtTerminated, List.headD_cons, okBind,
    if_neg (not_not.mpr rfl), terminatedTail, keyLength, skipBlank _ _ rfl, okBind, charAtTerminated,
    List.headD_cons, okBind, if_neg (not_not.mpr rfl), terminatedTail, skipBlank _ _ (integerHead _), okBind,
    readValueReads _ ends, storeKey]
  unfold Member.store
  by_cases fits : m.value.Fits
  · by_cases fresh : seen s m.key = false
    · rw [if_pos fits, if_pos fresh, if_pos ⟨fits,fresh⟩]
    · rw [if_pos fits, if_neg fresh, if_neg (fun free => fresh free.2)]
  · rw [if_neg fits, if_neg (fun free => fits free.1)]
    rfl

theorem memberScans (text : List UInt8) (s : Args) : member (terminated text) s = .ok none ∨
    ∃ (m : Member) (rest : List UInt8), text = m.text ++ rest ∧ isDecimal (rest.headD 0) = false := by
  unfold member
  rw [charAtTerminated, okBind]
  by_cases opened : text.headD 0 = quote
  · obtain ⟨text,rfl⟩ := headRead opened (by decide)
    obtain ⟨word,rest,rfl,_,_,skipped⟩ := skipWhileSplits (p := inKey) rfl text
    rw [if_neg (not_not.mpr opened), terminatedTail]
    simp only
    rw [skipped, okBind, charAtTerminated, okBind]
    by_cases closed : rest.headD 0 = quote
    · obtain ⟨rest,rfl⟩ := headRead closed (by decide)
      obtain ⟨beforeColon,rest,rfl,_,skipped⟩ := skipSplits rest
      rw [if_neg (not_not.mpr closed), terminatedTail, keyLength, skipped, okBind, charAtTerminated, okBind]
      by_cases separated : rest.headD 0 = colon
      · obtain ⟨rest,rfl⟩ := headRead separated (by decide)
        obtain ⟨beforeValue,rest,rfl,_,skipped⟩ := skipSplits rest
        rw [if_neg (not_not.mpr separated), terminatedTail, skipped, okBind]
        rcases readValueScans word (quote :: (beforeColon.1 ++ colon :: (beforeValue.1 ++ rest))) rest s with
          none | ⟨key,n,after,rfl,rfl,ends⟩
        · exact .inl none
        · refine .inr ⟨⟨key,beforeColon,beforeValue,n⟩,after,?_,ends⟩
          simp only [Member.text,List.cons_append,List.append_assoc]
      · exact .inl (if_pos separated)
    · exact .inl (if_pos closed)
  · exact .inl (if_pos opened)

theorem finishReads (after : Blank) (s : Args) : finish (terminated after.1) s = .ok (true,s) := by
  unfold finish
  rw [skipAll]
  rfl

theorem finishScans (noNul : 0 ∉ text) (s : Args) :
    ∃ ok, finish (terminated text) s = .ok (ok,s) ∧ (ok = true → Spaces text) := by
  obtain ⟨blank,rest,rfl,_,skipped⟩ := skipSplits text
  unfold finish
  rw [skipped, okBind, charAtTerminated, okBind]
  refine ⟨_,rfl,fun ended => ?_⟩
  cases rest with
  | nil =>
    rw [List.append_nil]
    exact blank.2
  | cons c rest =>
    have nul : c = 0 := beq_iff_eq.mp ended
    exact absurd (List.mem_append_right _ (nul ▸ List.mem_cons_self)) noNul

theorem behindEnds (behind : Blank) {c : UInt8} (ends : isDecimal c = false) (rest : List UInt8) :
    isDecimal ((behind.1 ++ c :: rest).headD 0) = false := by
  obtain ⟨spaces,all⟩ := behind
  cases spaces with
  | nil => exact ends
  | cons d spaces =>
    cases digit : isDecimal d with
    | false => exact digit
    | true => exact absurd (all d List.mem_cons_self) (by rw [(digitPlain digit).1]; exact Bool.false_ne_true)

theorem memberHead (m : Member) (rest : List UInt8) : (m.text ++ rest).headD 0 = quote := rfl

theorem closeReads (behind after : Blank) (s : Args) (f : List UInt8 → Checked (Bool × Args)) :
    (do
      let p ← skipWhile isSpace (terminated (behind.1 ++ closing :: after.1))
      let c ← charAt p
      if c = comma then f p else if c = closing then finish p.tail s else return (false,s)) =
      .ok (true,s) := by
  rw [skipBlank behind _ rfl, okBind, charAtTerminated, okBind, List.headD_cons, if_neg (by decide), if_pos rfl,
    terminatedTail]
  exact finishReads after s

theorem objectHead {n : Member} (inside : Object text (n :: members)) :
    ∃ (before : Blank) (rest : List UInt8), text = before.1 ++ quote :: rest := by
  cases inside with
  | last before m behind after => exact ⟨before,_,rfl⟩
  | more before m behind tail => exact ⟨before,_,rfl⟩

theorem loopReads (inside : Object text members) {fuel : Nat} (enough : text.length < fuel)
    (stored : storeAll members s = some t) : loop fuel (terminated text) s = .ok (true,t) := by
  induction inside generalizing fuel s with
  | empty inside after =>
    obtain ⟨fuel,rfl⟩ := Nat.exists_eq_add_one.mpr (Nat.zero_lt_of_lt enough)
    cases stored
    unfold loop
    rw [skipBlank inside _ rfl, okBind, charAtTerminated, okBind, List.headD_cons, if_pos rfl, terminatedTail]
    exact finishReads after _
  | last before m behind after =>
    obtain ⟨fuel,rfl⟩ := Nat.exists_eq_add_one.mpr (Nat.zero_lt_of_lt enough)
    obtain ⟨u,first,last⟩ := Option.bind_eq_some_iff.mp stored
    cases last
    unfold loop
    rw [skipBlank before _ rfl, okBind, charAtTerminated, okBind, memberHead, if_neg (by decide),
      memberReads m (behindEnds behind rfl _) s, first, okBind]
    exact closeReads behind after t _
  | @more before m behind rest n members tail ih =>
    obtain ⟨fuel,rfl⟩ := Nat.exists_eq_add_one.mpr (Nat.zero_lt_of_lt enough)
    obtain ⟨u,first,others⟩ := Option.bind_eq_some_iff.mp stored
    have left : rest.length < fuel := by
      simp only [List.length_append,List.length_cons] at enough
      omega
    obtain ⟨blank,more,same⟩ := objectHead tail
    have next : skipWhile isSpace (terminated rest) = .ok (terminated (quote :: more)) := by
      rw [same]
      exact skipBlank blank _ rfl
    unfold loop
    rw [skipBlank before _ rfl, okBind, charAtTerminated, okBind, memberHead, if_neg (by decide),
      memberReads m (behindEnds behind rfl _) s, first, okBind]
    simp only [Option.map_some]
    rw [skipBlank behind _ rfl, okBind, charAtTerminated, okBind, List.headD_cons, if_pos rfl, terminatedTail,
      next, okBind, charAtTerminated, okBind, List.headD_cons, if_neg (by decide)]
    exact ih left others

theorem commaMore {before : Blank} (token : isSpace (rest.headD 0) = false) (notEnd : rest.headD 0 ≠ closing)
    (inside : Object (before.1 ++ rest) members) : ∃ n tail, members = n :: tail := by
  generalize whole : before.1 ++ rest = text at inside
  have here := skipBlank before rest token
  cases inside with
  | empty inside after =>
    rw [whole, skipBlank inside _ rfl] at here
    have same := terminatedInj (Except.ok.inj here)
    exact absurd (by rw [← same]; rfl) notEnd
  | last before m behind after => exact ⟨m,[],rfl⟩
  | more before m behind tail => exact ⟨m,_,rfl⟩

theorem rejected {result : Checked (Bool × Args)} {holds : Args → Prop} (ran : result = .ok (false,s)) :
    ∃ ok t, result = .ok (ok,t) ∧ (ok = true → holds t) :=
  ⟨false,s,ran,fun taken => absurd taken Bool.false_ne_true⟩

theorem loopScans (noNul : 0 ∉ text) {fuel : Nat} (enough : text.length < fuel) (s : Args) :
    ∃ ok t, loop fuel (terminated text) s = .ok (ok,t) ∧
      (ok = true → ∃ members, Object text members ∧ storeAll members s = some t) := by
  induction fuel generalizing text s with
  | zero => exact absurd enough (Nat.not_lt_zero _)
  | succ fuel ih =>
    obtain ⟨before,rest,rfl,_,skipped⟩ := skipSplits text
    unfold loop
    rw [skipped, okBind, charAtTerminated, okBind]
    by_cases closed : rest.headD 0 = closing
    · obtain ⟨rest,rfl⟩ := headRead closed (by decide)
      have plain : 0 ∉ rest := fun mem => noNul (List.mem_append_right _ (List.mem_cons_of_mem _ mem))
      obtain ⟨ok,finished,spaces⟩ := finishScans plain s
      rw [if_pos closed, terminatedTail]
      exact ⟨ok,s,finished,fun taken => ⟨[],.empty before ⟨rest,spaces taken⟩,rfl⟩⟩
    · rw [if_neg closed]
      rcases memberScans rest s with none | ⟨m,after,rfl,ends⟩
      · rw [none]
        exact rejected rfl
      · rw [memberReads m ends s, okBind]
        cases stored : m.store s with
        | none => exact rejected rfl
        | some u =>
          obtain ⟨behind,after,rfl,_,skipped⟩ := skipSplits after
          have plain : 0 ∉ after := fun mem =>
            noNul (List.mem_append_right _ (List.mem_append_right _ (List.mem_append_right _ mem)))
          simp only [Option.map_some]
          rw [skipped, okBind, charAtTerminated, okBind]
          by_cases separated : after.headD 0 = comma
          · obtain ⟨after,rfl⟩ := headRead separated (by decide)
            have plain : 0 ∉ after := fun mem => plain (List.mem_cons_of_mem _ mem)
            obtain ⟨blank,next,split,token,skipped⟩ := skipSplits after
            rw [if_pos separated, terminatedTail, skipped, okBind, charAtTerminated, okBind]
            by_cases trailing : next.headD 0 = closing
            · rw [if_pos trailing]
              exact rejected rfl
            · rw [if_neg trailing]
              have left : after.length < fuel := by
                simp only [List.length_append,List.length_cons] at enough
                omega
              obtain ⟨ok,t,ran,taken⟩ := ih plain left u
              refine ⟨ok,t,ran,fun yes => ?_⟩
              obtain ⟨members,inside,others⟩ := taken yes
              obtain ⟨n,tail,rfl⟩ := commaMore token trailing (split ▸ inside)
              exact ⟨m :: n :: tail,.more before m behind inside,by rw [storeAll, stored]; exact others⟩
          · rw [if_neg separated]
            by_cases closed : after.headD 0 = closing
            · obtain ⟨after,rfl⟩ := headRead closed (by decide)
              have plain : 0 ∉ after := fun mem => plain (List.mem_cons_of_mem _ mem)
              obtain ⟨ok,finished,spaces⟩ := finishScans plain u
              rw [if_pos closed, terminatedTail]
              exact ⟨ok,u,finished,fun taken =>
                ⟨[m],.last before m behind ⟨after,spaces taken⟩,by rw [storeAll, stored]; rfl⟩⟩
            · rw [if_neg closed]
              exact rejected rfl

theorem atMostTwo (distinct : (members.map Member.key).Nodup) : members.length ≤ 2 := by
  have all : members.map Member.key ⊆ [.lifetime,.port] := fun key _ => by cases key <;> simp
  simpa using (List.subperm_of_subset distinct all).length_le

theorem parserReads {body : List UInt8} {lifetime port : Int} (shape : Options body members)
    (stored : storeAll members ⟨lifetime,port,false,false⟩ = some t) :
    otbrRestParseEpskcOptions (terminated body) lifetime port = .ok (true,t) := by
  unfold otbrRestParseEpskcOptions
  cases shape with
  | blank text =>
    cases stored
    simp only
    rw [skipAll]
    rfl
  | object before inside =>
    simp only
    rw [skipBlank before _ rfl, okBind, charAtTerminated, okBind, List.headD_cons, if_neg (by decide),
      if_neg (by decide), terminatedTail]
    refine loopReads inside ?_ stored
    rw [terminatedLength, List.length_cons]
    omega

theorem parserScans {body : List UInt8} (noNul : 0 ∉ body) (lifetime port : Int) :
    ∃ ok t, otbrRestParseEpskcOptions (terminated body) lifetime port = .ok (ok,t) ∧
      (ok = true → ∃ members, Options body members ∧
        storeAll members ⟨lifetime,port,false,false⟩ = some t) := by
  obtain ⟨before,rest,rfl,_,skipped⟩ := skipSplits body
  unfold otbrRestParseEpskcOptions
  simp only
  rw [skipped, okBind, charAtTerminated, okBind]
  cases rest with
  | nil =>
    refine ⟨true,_,rfl,fun _ => ⟨[],?_,rfl⟩⟩
    rw [List.append_nil]
    exact .blank before
  | cons c rest =>
    have some : c ≠ 0 := fun nul => noNul (List.mem_append_right _ (nul ▸ List.mem_cons_self))
    rw [List.headD_cons, if_neg some]
    by_cases opened : c = opening
    · subst opened
      have plain : 0 ∉ rest := fun mem => noNul (List.mem_append_right _ (List.mem_cons_of_mem _ mem))
      rw [if_neg (not_not.mpr rfl), terminatedTail]
      obtain ⟨ok,t,ran,taken⟩ := loopScans plain
        (by rw [terminatedLength, List.length_cons]; omega : rest.length < (terminated (opening :: rest)).length)
        ⟨lifetime,port,false,false⟩
      refine ⟨ok,t,ran,fun yes => ?_⟩
      obtain ⟨members,inside,stored⟩ := taken yes
      exact ⟨members,.object before inside,stored⟩
    · rw [if_pos opened]
      exact rejected rfl

/- The parser takes what the grammar writes, and stores what it gives. -/
theorem parserExact {body : List UInt8} (noNul : 0 ∉ body) (lifetime port : Int) :
    ∃ ok args, otbrRestParseEpskcOptions (terminated body) lifetime port = .ok (ok,args) ∧
      (ok = true ↔ ∃ members, Accepted body members) ∧
      ∀ members, Accepted body members → args.lifetime = given members .lifetime lifetime ∧
        args.port = given members .port port := by
  obtain ⟨ok,args,ran,taken⟩ := parserScans noNul lifetime port
  have reads : ∀ members, Accepted body members → ok = true ∧
      storeAll members ⟨lifetime,port,false,false⟩ = some args := by
    intro members accepted
    have fresh : ∀ key, seen ⟨lifetime,port,false,false⟩ key = false := fun key => by cases key <;> rfl
    obtain ⟨t,stored⟩ := storeAllTotal accepted.distinct (s := ⟨lifetime,port,false,false⟩)
      (fun m mem => ⟨accepted.fits m mem,fresh m.key⟩)
    have same := Except.ok.inj (ran.symm.trans (parserReads accepted.shape stored))
    cases same
    exact ⟨rfl,stored⟩
  refine ⟨ok,args,ran,⟨fun yes => ?_,fun ⟨members,accepted⟩ => (reads members accepted).1⟩,?_⟩
  · obtain ⟨members,shape,stored⟩ := taken yes
    obtain ⟨distinct,free,_⟩ := storeAllSome stored
    exact ⟨members,shape,distinct,fun m mem => (free m mem).1⟩
  · intro members accepted
    obtain ⟨_,_,values⟩ := storeAllSome (reads members accepted).2
    exact ⟨values .lifetime,values .port⟩

theorem castPlain {n : Int} (low : 0 ≤ n) :
    (n < 4294967296 → ((UInt32.ofInt n).toNat : Int) = n) ∧
      (n < 65536 → ((UInt16.ofInt n).toNat : Int) = n) := by
  constructor
  · intro high
    have small : (n % 2 ^ 32).toNat < 2 ^ 32 := by omega
    rw [UInt32.ofInt, UInt32.toNat_ofNat_of_lt' small]
    omega
  · intro high
    have small : (n % 2 ^ 16).toNat < 2 ^ 16 := by omega
    rw [UInt16.ofInt, UInt16.toNat_ofNat_of_lt' small]
    omega

theorem receivedPlain {contentLen cap : Nat} {reads : List (List UInt8)} {body : List UInt8}
    (received : recvBody contentLen reads cap = some body) : 0 ∉ body := by
  unfold recvBody at received
  split at received
  · cases received
  · obtain ⟨buf,_,ended⟩ := Option.bind_eq_some_iff.mp received
    unfold otbrRestTerminateBody at ended
    split at ended
    · cases ended
    · rename_i plain
      cases ended
      simp only [Bool.or_eq_true,decide_eq_true_eq,List.contains_eq_mem,not_or] at plain
      exact plain.2

/- A body that a POST may have, and the lifetime and the port that it asks for. -/
structure Asks (shareMinutes : UInt8) (body : List UInt8) (members : List Member) (lifetimeMs : UInt32)
    (onPort : UInt16) : Prop where
  accepted : Accepted body members
  lifetime : (lifetimeMs.toNat : Int) = given members .lifetime (shareMinutes.toNat * 60000)
  lifetimeRange : 1 ≤ lifetimeMs.toNat ∧ lifetimeMs.toNat ≤ 600000
  port : (onPort.toNat : Int) = given members .port 0
  portRange : onPort.toNat ≤ 65535

section posts

variable {State : Type} (start : UInt32 → UInt16 → State → ShareStarted State) (threadSharePort : State → UInt16)
  (accepted : Bool) (shareMinutes : UInt8) (s : State)

/- A POST that is accepted has opened a key, with what its body gives. -/
structure Opened (body : List UInt8) (t : State) (members : List Member) (lifetimeMs : UInt32)
    (onPort : UInt16) : Prop extends Asks shareMinutes body members lifetimeMs onPort where
  started : t = (start lifetimeMs onPort s).state ∧ (start lifetimeMs onPort s).result = espOk

/- The key is started once with these values, and the answer says what came of it. -/
structure Started (lifetimeMs : UInt32) (onPort : UInt16) (t : State) (answer : Answer) : Prop where
  state : t = (start lifetimeMs onPort s).state
  opened : (start lifetimeMs onPort s).result = espOk →
    answer = respond "200 OK" (tapJson (start lifetimeMs onPort s).code (threadSharePort t))
  conflict : (start lifetimeMs onPort s).result ≠ espOk →
    answer = respond "409 Conflict" "\"could not activate ephemeral key\""

/- No body has come that a POST may have, or the worker does not take it. -/
def Unasked (received : Option (List UInt8)) : Prop :=
  accepted = true → ∀ body members lifetimeMs onPort, received = some body →
    ¬Asks shareMinutes body members lifetimeMs onPort

structure Posted (received : Option (List UInt8)) (t : State) (answer : Answer) : Prop where
  opened : answer.status = "200 OK" → ∃ body, received = some body ∧
    ∃ members lifetimeMs onPort, Opened start shareMinutes s body t members lifetimeMs onPort
  started : accepted = true → ∀ body members lifetimeMs onPort, received = some body →
    Asks shareMinutes body members lifetimeMs onPort → Started start threadSharePort s lifetimeMs onPort t answer
  refused : Unasked accepted shareMinutes received → t = s ∧ answer.status ≠ "200 OK"

variable {start threadSharePort accepted shareMinutes s} {received : Option (List UInt8)}

theorem asksRead {body : List UInt8} {ok : Bool} {args : Args} {members : List Member} {lifetimeMs : UInt32}
    {onPort : UInt16} (exact : ok = true ↔ ∃ members, Accepted body members)
    (values : ∀ members, Accepted body members →
      args.lifetime = given members .lifetime (shareMinutes.toNat * 60000) ∧ args.port = given members .port 0)
    (asks : Asks shareMinutes body members lifetimeMs onPort) :
    ok = true ∧ args.lifetime = lifetimeMs.toNat ∧ args.port = onPort.toNat := by
  obtain ⟨lifetime,port⟩ := values members asks.accepted
  exact ⟨exact.mpr ⟨members,asks.accepted⟩,lifetime.trans asks.lifetime.symm,port.trans asks.port.symm⟩

theorem postRefused {status text : String} (other : status ≠ "200 OK")
    (unasked : Unasked accepted shareMinutes received) :
    Posted start threadSharePort accepted shareMinutes s received s (respond status text) where
  opened same := absurd same other
  started taken body members lifetimeMs onPort given asks :=
    absurd asks (unasked taken body members lifetimeMs onPort given)
  refused _ := ⟨rfl,other⟩

theorem postStarts {body : List UInt8} {members : List Member} {lifetimeMs : UInt32} {onPort : UInt16}
    {answer : Answer} (taken : accepted = true) (asks : Asks shareMinutes body members lifetimeMs onPort)
    (only : ∀ members lifetimeMs' onPort', Asks shareMinutes body members lifetimeMs' onPort' →
      lifetimeMs' = lifetimeMs ∧ onPort' = onPort)
    (started : Started start threadSharePort s lifetimeMs onPort (start lifetimeMs onPort s).state answer) :
    Posted start threadSharePort accepted shareMinutes s (some body) (start lifetimeMs onPort s).state answer where
  opened answered := by
    refine ⟨body,rfl,members,lifetimeMs,onPort,asks,rfl,?_⟩
    by_contra failed
    rw [started.conflict failed] at answered
    exact absurd answered (show "409 Conflict" ≠ "200 OK" by decide)
  started _ other members' lifetimeMs' onPort' given asks' := by
    cases Option.some.inj given
    obtain ⟨rfl,rfl⟩ := only members' lifetimeMs' onPort' asks'
    exact started
  refused unasked := absurd asks (unasked taken body members lifetimeMs onPort rfl)

end posts

theorem postExact {State : Type} (start : UInt32 → UInt16 → State → ShareStarted State)
    (threadSharePort : State → UInt16) (accepted : Bool) (shareMinutes : UInt8) (contentLen : Nat)
    (reads : List (List UInt8)) (s : State) :
    ∃ t answer, hEpskcKeyPost start threadSharePort accepted shareMinutes contentLen reads s = .ok (t,answer) ∧
      Posted start threadSharePort accepted shareMinutes s (recvBody contentLen reads 96) t answer := by
  unfold hEpskcKeyPost
  split
  · rename_i long
    have nothing : recvBody contentLen reads 96 = none := by simp [recvBody,long]
    rw [nothing]
    exact ⟨_,_,rfl,postRefused (by decide) fun _ _ _ _ _ given => by cases given⟩
  · cases received : recvBody contentLen reads 96 with
    | none => exact ⟨_,_,rfl,postRefused (by decide) fun _ _ _ _ _ given => by cases given⟩
    | some body =>
      obtain ⟨parsed,args,ran,exact,values⟩ :=
        parserExact (receivedPlain received) (shareMinutes.toNat * 60000) 0
      -- a body that is refused asks for nothing, since what it asks for is what was parsed
      have refuses {status text : String} (other : status ≠ "200 OK")
          (unasked : accepted = true → parsed = true → 0 < args.lifetime ∧ args.lifetime ≤ 600000 →
            0 ≤ args.port ∧ args.port ≤ 65535 → False) :
          Posted start threadSharePort accepted shareMinutes s (some body) s (respond status text) := by
        refine postRefused other fun taken body' members lifetimeMs onPort given asks => ?_
        cases Option.some.inj given
        obtain ⟨ok,lifetime,port⟩ := asksRead exact values asks
        obtain ⟨positive,short⟩ := asks.lifetimeRange
        exact unasked taken ok (by omega) (by have := asks.portRange; omega)
      simp only
      rw [ran, okBind]
      simp only
      split
      · rename_i failed
        exact ⟨_,_,rfl,refuses (by decide) fun _ ok => absurd ok (ne_true_of_eq_false failed)⟩
      rename_i taken
      split
      · exact ⟨_,_,rfl,refuses (by decide) fun _ _ _ _ => by omega⟩
      rename_i lifetimeRange
      split
      · exact ⟨_,_,rfl,refuses (by decide) fun _ _ _ _ => by omega⟩
      rename_i portRange
      split
      · rename_i busy
        exact ⟨_,_,rfl,refuses (by decide) fun free => absurd free (ne_true_of_eq_false busy)⟩
      rename_i free
      obtain ⟨members,shape⟩ := exact.mp (eq_true_of_ne_false taken)
      obtain ⟨lifetime,port⟩ := values members shape
      have lifetimeCast := (castPlain (n := args.lifetime) (by omega)).1 (by omega)
      have portCast := (castPlain (n := args.port) (by omega)).2 (by omega)
      have asks : Asks shareMinutes body members (UInt32.ofInt args.lifetime) (UInt16.ofInt args.port) :=
        ⟨shape,lifetimeCast.trans lifetime,by omega,portCast.trans port,by omega⟩
      have only (members' lifetimeMs onPort) (asks' : Asks shareMinutes body members' lifetimeMs onPort) :
          lifetimeMs = UInt32.ofInt args.lifetime ∧ onPort = UInt16.ofInt args.port := by
        obtain ⟨_,lifetime',port'⟩ := asksRead exact values asks'
        exact ⟨UInt32.toNat_inj.mp (by omega),UInt16.toNat_inj.mp (by omega)⟩
      have free' := eq_true_of_ne_false free
      split
      · rename_i failed
        exact ⟨_,_,rfl,postStarts free' asks only ⟨rfl,fun ok => absurd ok failed,fun _ => rfl⟩⟩
      · rename_i ok
        exact ⟨_,_,rfl,postStarts free' asks only ⟨rfl,fun _ => rfl,fun failed => absurd failed ok⟩⟩

/- The parser stays inside every body and takes exactly the grammar, and a POST starts a key
with the lifetime and on the port that its body gives, wherever the body may be had. -/
theorem optionsExact :
    (∀ (body : List UInt8) (lifetime port : Int), 0 ∉ body →
      ∃ ok args, otbrRestParseEpskcOptions (terminated body) lifetime port = .ok (ok,args) ∧
        (ok = true ↔ ∃ members, Accepted body members) ∧
        ∀ members, Accepted body members → members.length ≤ 2 ∧
          args.lifetime = given members .lifetime lifetime ∧ args.port = given members .port port) ∧
    ∀ (State : Type) (start : UInt32 → UInt16 → State → ShareStarted State)
      (threadSharePort : State → UInt16) (accepted : Bool) (shareMinutes : UInt8) (contentLen : Nat)
      (reads : List (List UInt8)) (s : State),
      ∃ t answer, hEpskcKeyPost start threadSharePort accepted shareMinutes contentLen reads s = .ok (t,answer) ∧
        Posted start threadSharePort accepted shareMinutes s (recvBody contentLen reads 96) t answer := by
  constructor
  · intro body lifetime port noNul
    obtain ⟨ok,args,ran,exact,values⟩ := parserExact noNul lifetime port
    exact ⟨ok,args,ran,exact,fun members shape => ⟨atMostTwo shape.distinct,values members shape⟩⟩
  · intro State start threadSharePort accepted shareMinutes contentLen reads s
    exact postExact start threadSharePort accepted shareMinutes contentLen reads s

/- `"port": -5` and `"port":80` -/
def portMember : Member :=
  ⟨.port,⟨[],List.forall_mem_nil _⟩,⟨[0x20],by decide⟩,⟨true,[0x35],by decide,
    List.all_eq_true.mp (by decide),by decide⟩⟩

def webMember : Member :=
  ⟨.port,⟨[],List.forall_mem_nil _⟩,⟨[],List.forall_mem_nil _⟩,⟨false,[0x38,0x30],by decide,
    List.all_eq_true.mp (by decide),by decide⟩⟩

def objectOf (m : Member) : List UInt8 := opening :: (m.text ++ [closing])

theorem objectAccepted (m : Member) (fits : m.value.Fits) : Accepted (objectOf m) [m] :=
  ⟨.object ⟨[],List.forall_mem_nil _⟩ (.last ⟨[],List.forall_mem_nil _⟩ m ⟨[],List.forall_mem_nil _⟩
      ⟨[],List.forall_mem_nil _⟩),by simp,List.forall_mem_singleton.mpr fits⟩

def logStart (lifetimeMs : UInt32) (onPort : UInt16) (started : List (UInt32 × UInt16)) :
    ShareStarted (List (UInt32 × UInt16)) :=
  ⟨(lifetimeMs,onPort) :: started,espOk,"123456789"⟩

theorem optionsExactPort :
    (∃ args, otbrRestParseEpskcOptions (terminated (objectOf portMember)) 300000 0 = .ok (true,args) ∧
      args.lifetime = 300000 ∧ args.port = -5) ∧
    hEpskcKeyPost logStart (fun _ => 49152) true 5 11 [objectOf webMember] [] =
      .ok ([(300000,80)],respond "200 OK" "\x7b\"tap\":\"123456789\",\"port\":49152\x7d") := by
  constructor
  · obtain ⟨ok,args,ran,exact,values⟩ := optionsExact.1 (objectOf portMember) 300000 0 (by decide)
    have accepted := objectAccepted portMember (by decide)
    obtain ⟨_,lifetime,port⟩ := values _ accepted
    have taken : ok = true := exact.mpr ⟨_,accepted⟩
    subst taken
    exact ⟨args,ran,lifetime,port⟩
  · obtain ⟨t,answer,ran,posted⟩ :=
      optionsExact.2 _ logStart (fun _ => 49152) true 5 11 [objectOf webMember] []
    have received : recvBody 11 [objectOf webMember] 96 = some (objectOf webMember) := by decide
    have asks : Asks 5 (objectOf webMember) [webMember] 300000 80 :=
      ⟨objectAccepted webMember (by decide),by decide,by decide,by decide,by decide⟩
    obtain ⟨rfl,opened,_⟩ := posted.started rfl _ _ _ _ received asks
    rw [ran, opened rfl]
    rfl

end EpskcCommissioner.EpskcParser

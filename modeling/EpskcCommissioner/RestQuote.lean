import EpskcCommissioner.CBuffer
import EpskcCommissioner.Hex
import EpskcCommissioner.Json
import EpskcCommissioner.Utf8

/-! `otbr_rest_quote_json_string`: a string as a JSON literal. It fits or it is refused; what
is written never leaves the buffer. -/
namespace EpskcCommissioner.RestQuote
open CBuffer Utf8
open String (utf8EncodeChar)

/- The loop over the value. `last` is the place of `end`, which is kept for the NUL. -/
def quoteLoop : List UInt8 → (last : Nat) → Out → Stored (Bool × Out)
  | [], _, _ => .error (.other .read)
  | p :: rest, last, out =>
    if p = 0 then .ok (true,out)
    else if p = 0x22 ∨ p = 0x5c then
      if last - out.pos < 2 then .ok (false,out)
      else do
        let out ← putAll out [0x5c,p]
        quoteLoop rest last out
    else if p < 0x20 then
      if last - out.pos < 6 then .ok (false,out)
      else do
        let out ← putAll out [0x5c,0x75,0x30,0x30,Hex.digit (p >>> 4),Hex.digit (p &&& 0x0f)]
        quoteLoop rest last out
    else if out.pos = last then .ok (false,out)
    else do
      let out ← put out p
      quoteLoop rest last out

/- `otbr_rest_quote_json_string`, with pointers that are none of them `NULL`. -/
def otbrRestQuoteJsonString (value buf : List UInt8) (size : Nat) : Stored (Bool × List UInt8) :=
  if size < 3 then .ok (false,buf)
  else do
    let last := size - 1
    let out ← put ⟨buf,0⟩ 0x22
    let (whole,out) ← quoteLoop value last out
    if !whole then .ok (false,out.buf)
    else if out.pos = last then .ok (false,out.buf)
    else do
      let out ← put out 0x22
      let buf ← store out.buf out.pos 0
      .ok (true,buf)

def escaped (p : UInt8) : List UInt8 :=
  if p = 0x22 ∨ p = 0x5c then [0x5c,p]
  else if p < 0x20 then [0x5c,0x75,0x30,0x30,Hex.digit (p >>> 4),Hex.digit (p &&& 0x0f)]
  else [p]

/- The room that a byte needs: two bytes, six or one. -/
def escapedLength (p : UInt8) : Nat :=
  if p = 0x22 ∨ p = 0x5c then 2 else if p < 0x20 then 6 else 1

def literal (value : List UInt8) : List UInt8 := 0x22 :: value.flatMap escaped ++ [0x22]

def byteChars (bytes : List UInt8) : List Char := bytes.map (fun b => Char.ofNat b.toNat)

variable {value behind text : List UInt8} {p : UInt8} {last size : Nat} {out : Out}

theorem escapedSize (p : UInt8) : (escaped p).length = escapedLength p := by
  unfold escaped escapedLength
  split
  · rfl
  · split <;> rfl

theorem escapedSum (value : List UInt8) : (value.flatMap escaped).length = (value.map escapedLength).sum := by
  rw [List.length_flatMap]
  exact congrArg List.sum (List.map_congr_left (fun p _ => escapedSize p))

theorem quoteTurn (rest : List UInt8) (some : p ≠ 0) (inside : out.pos ≤ last) :
    quoteLoop (p :: rest) last out =
      if last - out.pos < (escaped p).length then .ok (false,out)
      else putAll out (escaped p) >>= quoteLoop rest last := by
  rw [quoteLoop, if_neg some]
  unfold escaped
  split
  · rfl
  · split
    · rfl
    · have full : out.pos = last ↔ last - out.pos < [p].length := by
        rw [List.length_singleton]
        omega
      simp only [full]
      split
      · rfl
      · simp only [putAll]
        cases put out p <;> rfl

theorem quoteLoopRuns (noNul : 0 ∉ value) (filled : Filled size text out) (front : text.length ≤ last)
    (room : last < size) : ∃ more, more.buf.length = size ∧
      quoteLoop (value ++ 0 :: behind) last out =
        .ok (decide (text.length + (value.flatMap escaped).length ≤ last),more) ∧
      (text.length + (value.flatMap escaped).length ≤ last →
        Filled size (text ++ value.flatMap escaped) more) := by
  induction value generalizing text out with
  | nil =>
    refine ⟨out,filled.size,?_,fun _ => ?_⟩
    · rw [List.flatMap_nil, List.length_nil, Nat.add_zero, decide_eq_true front]
      rfl
    · rwa [List.flatMap_nil, List.append_nil]
  | cons p rest ih =>
    have here : p ≠ 0 := fun zero => noNul (zero ▸ List.mem_cons_self)
    have later : 0 ∉ rest := fun mem => noNul (List.mem_cons_of_mem _ mem)
    have place := filled.place
    have parts : (p :: rest).flatMap escaped = escaped p ++ rest.flatMap escaped := List.flatMap_cons
    rw [List.cons_append, quoteTurn _ here (by omega), parts, List.length_append, ← List.append_assoc]
    by_cases full : last - out.pos < (escaped p).length
    · have beyond : ¬ text.length + ((escaped p).length + (rest.flatMap escaped).length) ≤ last := by omega
      rw [if_pos full, decide_eq_false beyond]
      exact ⟨out,filled.size,rfl,fun fits => absurd fits beyond⟩
    · obtain ⟨next,stored,filled⟩ := putAllFilled filled (escaped p) (by omega)
      have long : (text ++ escaped p).length = text.length + (escaped p).length := List.length_append
      obtain ⟨more,size,done,whole⟩ := ih later filled (by omega)
      rw [long, Nat.add_assoc] at done whole
      rw [if_neg full, stored, okBind]
      exact ⟨more,size,done,whole⟩

/- The string is quoted exactly where the literal and its NUL have room. -/
theorem quoteRuns (noNul : 0 ∉ value) (behind buf : List UInt8) : ∃ after,
    otbrRestQuoteJsonString (value ++ 0 :: behind) buf buf.length =
      .ok (decide (3 + (value.flatMap escaped).length ≤ buf.length),after) ∧
    after.length = buf.length ∧
    (3 + (value.flatMap escaped).length ≤ buf.length → literal value ++ [0] <+: after) := by
  by_cases small : buf.length < 3
  · have beyond : ¬ 3 + (value.flatMap escaped).length ≤ buf.length := by omega
    rw [otbrRestQuoteJsonString, if_pos small, decide_eq_false beyond]
    exact ⟨buf,rfl,rfl,fun fits => absurd fits beyond⟩
  obtain ⟨first,opened,filled⟩ := putFilled (filledStart buf) 0x22 (by rw [List.length_nil]; omega)
  obtain ⟨more,size,looped,whole⟩ := @quoteLoopRuns _ behind _ (buf.length - 1) _ _ noNul filled
    (by simp only [List.nil_append,List.length_singleton]; omega) (by omega)
  simp only [List.nil_append,List.length_singleton] at looped whole
  rw [otbrRestQuoteJsonString, if_neg small]
  dsimp only
  rw [opened, okBind, looped, okBind]
  by_cases fits : 1 + (value.flatMap escaped).length ≤ buf.length - 1
  · have filled := whole fits
    have place := filled.place
    simp only [List.length_append,List.length_singleton] at place
    simp only [decide_eq_true fits,Bool.not_true,Bool.false_eq_true,if_false]
    by_cases full : more.pos = buf.length - 1
    · have beyond : ¬ 3 + (value.flatMap escaped).length ≤ buf.length := by omega
      rw [if_pos full, decide_eq_false beyond]
      exact ⟨more.buf,rfl,size,fun fits => absurd fits beyond⟩
    · have room : 3 + (value.flatMap escaped).length ≤ buf.length := by omega
      obtain ⟨next,closed,filled⟩ := putFilled filled 0x22 (by
        rw [List.length_append, List.length_singleton]
        omega)
      obtain ⟨last,ended,size,front⟩ := storeFilled filled 0 (by
        simp only [List.length_append,List.length_singleton]
        omega)
      rw [if_neg full, closed, okBind, ended, okBind, decide_eq_true room]
      exact ⟨last,rfl,size,fun _ => front⟩
  · have beyond : ¬ 3 + (value.flatMap escaped).length ≤ buf.length := by omega
    rw [decide_eq_false beyond]
    simp only [decide_eq_false fits,Bool.not_false,if_true]
    exact ⟨more.buf,rfl,size,fun fits => absurd fits beyond⟩

theorem byteCharsAppend (xs ys : List UInt8) : byteChars (xs ++ ys) = byteChars xs ++ byteChars ys :=
  List.map_append

theorem byteCharsEscaped (p : UInt8) : byteChars (escaped p) = Json.escaped (Char.ofNat p.toNat) := by
  revert p
  exact Hex.forallBytes (by decide +kernel)

theorem byteCharsLiteral (value : List UInt8) : byteChars (literal value) = Json.text (.str (byteChars value)) := by
  have inner : byteChars (value.flatMap escaped) = (byteChars value).flatMap Json.escaped := by
    unfold byteChars
    rw [List.map_flatMap, List.flatMap_map]
    exact congrArg (value.flatMap ·) (funext byteCharsEscaped)
  have whole : byteChars (literal value) = '"' :: (byteChars (value.flatMap escaped) ++ ['"']) := by
    unfold byteChars literal
    rw [List.cons_append, List.map_cons, List.map_append]
    rfl
  rw [whole, inner]
  rfl

theorem escapedHigh (p : UInt8) : 0x80 ≤ p.toNat → escaped p = [p] := by
  revert p
  exact Hex.forallBytes (by decide +kernel)

theorem escapedAscii (p : UInt8) : p.toNat < 0x80 → escaped p = encode (Json.escaped (Char.ofNat p.toNat)) := by
  revert p
  exact Hex.forallBytes (by decide +kernel)

theorem charEscaped (c : Char) : (utf8EncodeChar c).flatMap escaped = encode (Json.escaped c) := by
  by_cases ascii : c.toNat < 0x80
  · have same : (UInt8.ofNat c.toNat).toNat = c.toNat := toNatByte (by omega)
    rw [encodeAscii ascii, List.flatMap_singleton, escapedAscii _ (by omega), same, Char.ofNat_toNat]
  · have high := Nat.not_lt.mp ascii
    have plain : (utf8EncodeChar c).flatMap escaped = (utf8EncodeChar c).flatMap (fun b => [b]) :=
      List.flatMap_congr (fun b mem => escapedHigh b (highAll high b mem))
    rw [plain, List.flatMap_singleton', Json.escapedHigh high, encodeCons, encodeNil, List.append_nil]

theorem literalEncode (cs : List Char) : literal (encode cs) = encode (Json.text (.str cs)) := by
  have inner : (encode cs).flatMap escaped = encode (cs.flatMap Json.escaped) := by
    induction cs with
    | nil => rfl
    | cons c cs ih => rw [encodeCons, List.flatMap_append, List.flatMap_cons, encodeAppend, charEscaped, ih]
  have whole : Json.text (.str cs) = '"' :: (cs.flatMap Json.escaped ++ ['"']) := rfl
  rw [literal, inner, whole, encodeCons, encodeAppend]
  rfl

theorem literalNoNul (noNul : 0 ∉ value) : 0 ∉ literal value := by
  have each : ∀ p : UInt8, p ≠ 0 → 0 ∉ escaped p := Hex.forallBytes (by decide +kernel)
  simp only [literal,List.mem_append,List.mem_cons,List.mem_flatMap,not_or,not_exists,not_and]
  exact ⟨⟨by decide,fun p mem => each p (fun zero => noNul (zero ▸ mem))⟩,by decide,List.not_mem_nil⟩

theorem escapedLengthMax (p : UInt8) : (escaped p).length ≤ 6 := by
  rw [escapedSize]
  unfold escapedLength
  split
  · decide
  · split <;> decide

/- The worst case is six bytes for each of the value. -/
theorem literalLength (value : List UInt8) : (literal value).length ≤ 6 * value.length + 2 := by
  have most : (value.flatMap escaped).length ≤ 6 * value.length := by
    induction value with
    | nil => exact Nat.le_refl 0
    | cons p value ih =>
      have here := escapedLengthMax p
      rw [List.flatMap_cons, List.length_append, List.length_cons]
      omega
  simp only [literal,List.length_append,List.length_cons,List.length_nil]
  omega

def Plain (cs : List Char) : Prop := ∀ c ∈ cs, 0x20 ≤ c.toNat ∧ c.toNat < 0x80

instance (cs : List Char) : Decidable (Plain cs) := List.decidableBAll _ cs

variable {cs : List Char} {doc : List Char → Json.Value} {front back : List Char} {body : List UInt8}

theorem plainAppend {ds : List Char} (first : Plain cs) (second : Plain ds) : Plain (cs ++ ds) :=
  List.forall_mem_append.mpr ⟨first,second⟩

theorem plainLength (plain : Plain cs) : (encode cs).length = cs.length :=
  encodeLength (fun c mem => (plain c mem).2)

theorem plainBytes (plain : Plain cs) : byteChars (encode cs) = cs ∧ 0 ∉ encode cs := by
  induction cs with
  | nil => exact ⟨rfl,List.not_mem_nil⟩
  | cons c cs ih =>
    obtain ⟨⟨low,high⟩,later⟩ := List.forall_mem_cons.mp plain
    obtain ⟨same,noNul⟩ := ih later
    have byte : (UInt8.ofNat c.toNat).toNat = c.toNat := toNatByte (by omega)
    rw [encodeCons, encodeAscii high]
    constructor
    · unfold byteChars at same ⊢
      rw [List.singleton_append, List.map_cons, same, byte, Char.ofNat_toNat]
    · rw [List.singleton_append, List.mem_cons]
      rintro (zero | mem)
      · have none : c.toNat = 0 := by rw [← byte, ← zero]; rfl
        omega
      · exact noNul mem

theorem encodeByteChars {bytes : List UInt8} (ascii : ∀ b ∈ bytes, b.toNat < 0x80) :
    encode (byteChars bytes) = bytes := by
  induction bytes with
  | nil => rfl
  | cons b bytes ih =>
    obtain ⟨here,later⟩ := List.forall_mem_cons.mp ascii
    unfold byteChars at ih ⊢
    rw [List.map_cons, encodeCons, ih later, encodeAscii (by rw [byteChar]; exact here), byteChar,
      UInt8.ofNat_toNat]
    rfl

/- The body is a whole document, and the value stands in it where `doc` puts it: byte for
byte, and as the characters that it is in UTF-8. -/
structure Carries (doc : List Char → Json.Value) (value body : List UInt8) : Prop where
  bytes : Json.parse (byteChars body) = some (doc (byteChars value))
  utf8 : ∀ cs, value = encode cs → body = encode (Json.text (doc cs))

theorem literalCarries (value : List UInt8) : Carries .str value (literal value) := by
  refine ⟨?_,?_⟩
  · rw [byteCharsLiteral, Json.parseText]
  · rintro cs rfl
    exact literalEncode cs

theorem splicedCarries (value : List UInt8) (first : Plain front) (second : Plain back)
    (shape : ∀ cs, Json.text (doc cs) = front ++ Json.text (.str cs) ++ back) :
    Carries doc value (encode front ++ literal value ++ encode back) := by
  refine ⟨?_,?_⟩
  · have whole : byteChars (encode front ++ literal value ++ encode back) = Json.text (doc (byteChars value)) := by
      rw [byteCharsAppend, byteCharsAppend, (plainBytes first).1, (plainBytes second).1, byteCharsLiteral, shape]
    rw [whole, Json.parseText]
  · rintro cs rfl
    rw [shape, encodeAppend, encodeAppend, literalEncode]

end EpskcCommissioner.RestQuote

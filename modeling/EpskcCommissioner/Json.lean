import EpskcCommissioner.Decimal

/-! JSON: values, their text without spaces, and a reader of documents that takes what the
grammar has and no more. A number with a fraction or an exponent is kept as its digits and
the power of ten that they are multiplied by. -/
namespace EpskcCommissioner.Json
open Decimal

inductive Value where
  | null
  | bool (b : Bool)
  | int (n : Int)
  | real (mantissa exponent : Int)
  | str (s : List Char)
  | arr (items : List Value)
  | obj (fields : List (List Char × Value))

def escaped (c : Char) : List Char :=
  if c = '"' ∨ c = '\\' then ['\\',c]
  else if c.toNat < 0x20 then
    ['\\','u','0','0',Nat.digitChar (c.toNat / 16),Nat.digitChar (c.toNat % 16)]
  else [c]

def quoted (s : List Char) : List Char := '"' :: (s.flatMap escaped ++ ['"'])

mutual
def text : Value → List Char
  | .null => "null".toList
  | .bool true => "true".toList
  | .bool false => "false".toList
  | .int n => signed n
  | .real mantissa exponent => signed mantissa ++ 'e' :: signed exponent
  | .str s => quoted s
  | .arr items => '[' :: ([','].intercalate (texts items) ++ [']'])
  | .obj fields => '{' :: ([','].intercalate (fieldTexts fields) ++ ['}'])

def texts : List Value → List (List Char)
  | [] => []
  | v :: rest => text v :: texts rest

def fieldTexts : List (List Char × Value) → List (List Char)
  | [] => []
  | (key,v) :: rest => (quoted key ++ ':' :: text v) :: fieldTexts rest
end

/- What a dict of the pairs holds: the last one of a key. -/
def Value.get? (key : String) : Value → Option Value
  | .obj fields => (fields.reverse.find? (·.1 == key.toList)).map (·.2)
  | _ => none

def isBlank (c : Char) : Bool := c == ' ' || c == '\t' || c == '\n' || c == '\r'

def blank (cs : List Char) : List Char := cs.dropWhile isBlank

def hexValue (c : Char) : Option Nat :=
  if c.isDigit then some (c.toNat - 48)
  else if 'a' ≤ c ∧ c ≤ 'f' then some (c.toNat - 87)
  else if 'A' ≤ c ∧ c ≤ 'F' then some (c.toNat - 55)
  else none

def hexFour : List Char → Option (Nat × List Char)
  | a :: b :: c :: d :: cs => do
    let a ← hexValue a
    let b ← hexValue b
    let c ← hexValue c
    let d ← hexValue d
    some (((a * 16 + b) * 16 + c) * 16 + d,cs)
  | _ => none

/- The second half of a surrogate pair whose first half is `high`. -/
def lowSurrogate (high : Nat) : List Char → Option (Char × List Char)
  | '\\' :: 'u' :: cs => do
    let (low,cs) ← hexFour cs
    if high < 0xdc00 ∧ 0xdc00 ≤ low ∧ low < 0xe000 then
      some (Char.ofNat (0x10000 + (high - 0xd800) * 0x400 + (low - 0xdc00)),cs)
    else none
  | _ => none

def escapes : List (Char × Char) :=
  [('"','"'),('\\','\\'),('/','/'),('b','\x08'),('f','\x0c'),('n','\n'),('r','\r'),('t','\t')]

def character : List Char → Option (Char × List Char)
  | [] => none
  | c :: cs =>
    if c.toNat < 0x20 then none
    else if c ≠ '\\' then some (c,cs)
    else
      match cs with
      | [] => none
      | e :: cs =>
        if e ≠ 'u' then (escapes.lookup e).map (fun c => (c,cs))
        else do
          let (n,cs) ← hexFour cs
          if n < 0xd800 ∨ 0xe000 ≤ n then some (Char.ofNat n,cs) else lowSurrogate n cs

def string : (fuel : Nat) → List Char → Option (List Char × List Char)
  | 0, _ | _, [] => none
  | fuel + 1, c :: cs =>
    if c = '"' then some ([],cs)
    else do
      let (c,cs) ← character (c :: cs)
      let (s,cs) ← string fuel cs
      some (c :: s,cs)

def someDigits (cs : List Char) : Option (List Char × List Char) :=
  if cs.takeWhile Char.isDigit = [] then none
  else some (cs.takeWhile Char.isDigit,cs.dropWhile Char.isDigit)

def whole (cs : List Char) : Option (List Char × List Char) := do
  let (ds,cs) ← someDigits cs
  if ds.head? = some '0' ∧ 1 < ds.length then none else some (ds,cs)

def fraction : List Char → Option (List Char × List Char)
  | '.' :: cs => someDigits cs
  | cs => some ([],cs)

def sign : List Char → Bool × List Char
  | '-' :: cs => (true,cs)
  | cs => (false,cs)

def withSign (negative : Bool) (ds : List Char) : Int :=
  if negative then -(Nat.ofDigitChars 10 ds 0 : Int) else Nat.ofDigitChars 10 ds 0

def power : List Char → Option (Option Int × List Char)
  | c :: cs =>
    if c = 'e' ∨ c = 'E' then do
      let (negative,cs) := if cs.head? = some '+' then (false,cs.drop 1) else sign cs
      let (ds,cs) ← someDigits cs
      some (some (withSign negative ds),cs)
    else some (none,c :: cs)
  | [] => some (none,[])

def number (cs : List Char) : Option (Value × List Char) := do
  let (negative,cs) := sign cs
  let (ds,cs) ← whole cs
  let (part,cs) ← fraction cs
  let (exponent,cs) ← power cs
  let mantissa := withSign negative (ds ++ part)
  if part = [] ∧ exponent = none then some (.int mantissa,cs)
  else some (.real mantissa (exponent.getD 0 - part.length),cs)

def sequence {α : Type} (item : List Char → Option (α × List Char)) (close : Char) :
    (fuel : Nat) → List Char → Option (List α × List Char)
  | 0, _ => none
  | fuel + 1, cs => do
    let (x,cs) ← item cs
    match blank cs with
    | [] => none
    | c :: cs =>
      if c = close then some ([x],cs)
      else if c = ',' then do
        let (xs,cs) ← sequence item close fuel cs
        some (x :: xs,cs)
      else none

def items {α : Type} (item : List Char → Option (α × List Char)) (close : Char) (cs : List Char) :
    Option (List α × List Char) :=
  if (blank cs).head? = some close then some ([],(blank cs).drop 1)
  else sequence item close cs.length cs

def member (value : List Char → Option (Value × List Char)) (cs : List Char) :
    Option ((List Char × Value) × List Char) :=
  match blank cs with
  | '"' :: cs => do
    let (key,cs) ← string cs.length cs
    match blank cs with
    | ':' :: cs => do
      let (v,cs) ← value cs
      some ((key,v),cs)
    | _ => none
  | _ => none

def named (name : String) (v : Value) (cs : List Char) : Option (Value × List Char) :=
  if name.toList <+: cs then some (v,cs.drop name.length) else none

def value : (fuel : Nat) → List Char → Option (Value × List Char)
  | 0, _ => none
  | fuel + 1, cs =>
    match blank cs with
    | [] => none
    | c :: cs =>
      if c = '"' then (string cs.length cs).map (fun (s,cs) => (.str s,cs))
      else if c = '[' then (items (value fuel) ']' cs).map (fun (vs,cs) => (.arr vs,cs))
      else if c = '{' then (items (member (value fuel)) '}' cs).map (fun (vs,cs) => (.obj vs,cs))
      else if c = 'n' then named "ull" .null cs
      else if c = 't' then named "rue" (.bool true) cs
      else if c = 'f' then named "alse" (.bool false) cs
      else number (c :: cs)

def parse (cs : List Char) : Option Value := do
  let (v,rest) ← value cs.length cs
  if blank rest = [] then some v else none

/- What may follow a number without becoming part of it. -/
def Ends (rest : List Char) : Prop := ∀ c ∈ rest.head?, c.isDigit = false ∧ c ∉ ['.','e','E']

theorem endsNil : Ends [] := nofun

theorem endsCons {c : Char} (rest : List Char) (plain : c.isDigit = false ∧ c ∉ ['.','e','E']) :
    Ends (c :: rest) := by
  intro d mem
  cases mem
  exact plain

theorem someDigitsAppend {ds rest : List Char} (all : ∀ c ∈ ds, c.isDigit = true) (some : ds ≠ [])
    (stop : ∀ c ∈ rest.head?, c.isDigit = false) : someDigits (ds ++ rest) = .some (ds,rest) := by
  have front : (ds ++ rest).takeWhile Char.isDigit = ds := by
    rw [List.takeWhile_append_of_pos all]
    cases rest with
    | nil => exact List.append_nil ds
    | cons c rest => rw [List.takeWhile_cons_of_neg (by simp [stop c rfl]), List.append_nil]
  have back : (ds ++ rest).dropWhile Char.isDigit = rest := by
    rw [List.dropWhile_append_of_pos all]
    cases rest with
    | nil => rfl
    | cons c rest => exact List.dropWhile_cons_of_neg (by simp [stop c rfl])
  rw [someDigits, front, back, if_neg some]

theorem someDigitsDigits {n : Nat} {rest : List Char} (stop : ∀ c ∈ rest.head?, c.isDigit = false) :
    someDigits (digits n ++ rest) = some (digits n,rest) :=
  someDigitsAppend (fun _ => digitsAll) digitsSome stop

theorem signDigits {n : Nat} {rest : List Char} : sign (digits n ++ rest) = (false,digits n ++ rest) := by
  cases found : digits n with
  | nil => exact absurd found digitsSome
  | cons c cs =>
    have digit := digitsAll (n := n) (c := c) (by rw [found]; exact List.mem_cons_self)
    rw [List.cons_append]
    unfold sign
    split
    · rename_i same
      rw [(List.cons.inj same).1] at digit
      exact absurd digit (by decide)
    · rfl

theorem signSigned (n : Int) (rest : List Char) : ∃ negative k,
    sign (signed n ++ rest) = (negative,digits k ++ rest) ∧ withSign negative (digits k) = n := by
  cases n with
  | ofNat k => exact ⟨false,k,signDigits,congrArg Int.ofNat Nat.ofDigitChars_ten_toDigits⟩
  | negSucc k =>
    refine ⟨true,k + 1,rfl,?_⟩
    rw [withSign, if_pos rfl, digits, Nat.ofDigitChars_ten_toDigits]
    rfl

theorem wholeDigits {n : Nat} {rest : List Char} (stop : ∀ c ∈ rest.head?, c.isDigit = false) :
    whole (digits n ++ rest) = some (digits n,rest) := by
  unfold whole
  rw [someDigitsDigits stop]
  exact if_neg digitsPlain

theorem fractionNone {rest : List Char} (stop : ∀ c ∈ rest.head?, c ≠ '.') :
    fraction rest = some ([],rest) := by
  unfold fraction
  split
  · exact absurd rfl (stop '.' rfl)
  · rfl

theorem numberInt (n : Int) {rest : List Char} (ends : Ends rest) :
    number (signed n ++ rest) = some (.int n,rest) := by
  obtain ⟨negative,k,found,value⟩ := signSigned n rest
  have stop : ∀ c ∈ rest.head?, c.isDigit = false := fun c mem => (ends c mem).1
  have point : ∀ c ∈ rest.head?, c ≠ '.' := fun c mem same => (ends c mem).2 (by simp [same])
  have noPower : power rest = some (none,rest) := by
    cases rest with
    | nil => rfl
    | cons c rest =>
      have letter := (ends c rfl).2
      exact if_neg (by rintro (rfl | rfl) <;> simp at letter)
  simp only [number,found,wholeDigits stop,fractionNone point,noPower,Option.bind_eq_bind,
    Option.bind_some,List.append_nil,and_self,if_true,value]

theorem numberReal (mantissa exponent : Int) {rest : List Char} (ends : Ends rest) :
    number (signed mantissa ++ 'e' :: signed exponent ++ rest) =
      some (.real mantissa exponent,rest) := by
  have stop : ∀ c ∈ rest.head?, c.isDigit = false := fun c mem => (ends c mem).1
  obtain ⟨negative,k,found,value⟩ := signSigned mantissa ('e' :: signed exponent ++ rest)
  obtain ⟨low,j,foundLow,valueLow⟩ := signSigned exponent rest
  have letter : ∀ c ∈ ('e' :: signed exponent ++ rest).head?, c.isDigit = false := by
    intro c mem
    cases mem
    rfl
  have noPlus : (signed exponent ++ rest).head? ≠ some '+' := by
    intro plus
    cases exponent with
    | negSucc j => exact absurd (Option.some.inj plus) (by decide)
    | ofNat j =>
      rw [signed, List.head?_append_of_ne_nil _ digitsSome] at plus
      exact absurd (digitsAll (List.mem_of_head? plus)) (by decide)
  have power : power ('e' :: signed exponent ++ rest) = some (some exponent,rest) := by
    simp only [List.cons_append,power,true_or,if_true,if_neg noPlus,foundLow,someDigitsDigits stop,
      Option.bind_eq_bind,Option.bind_some,valueLow]
  have point : fraction ('e' :: signed exponent ++ rest) = some ([],'e' :: signed exponent ++ rest) :=
    fractionNone (by intro c mem; cases mem; decide)
  rw [List.append_assoc]
  simp only [number,found,wholeDigits letter,point,power,Option.bind_eq_bind,Option.bind_some,
    List.append_nil,value]
  simp

theorem hexValueDigit : ∀ n < 16, hexValue (Nat.digitChar n) = some n := by decide

theorem characterEscaped (c : Char) (rest : List Char) :
    character (escaped c ++ rest) = some (c,rest) := by
  unfold escaped
  split
  · rename_i marked
    rcases marked with rfl | rfl <;> rfl
  · rename_i plain
    split
    · rename_i control
      have high := hexValueDigit (c.toNat / 16) (by omega)
      have low := hexValueDigit (c.toNat % 16) (by omega)
      have zero : hexValue '0' = some 0 := rfl
      have code : ((0 * 16 + 0) * 16 + c.toNat / 16) * 16 + c.toNat % 16 = c.toNat := by omega
      have four : hexFour ('0' :: '0' :: Nat.digitChar (c.toNat / 16) ::
          Nat.digitChar (c.toNat % 16) :: rest) = some (c.toNat,rest) := by
        simp only [hexFour,zero,high,low,Option.bind_eq_bind,Option.bind_some,code]
      have low : c.toNat < 0xd800 ∨ 0xe000 ≤ c.toNat := .inl (by omega)
      simp [character,four,low]
    · rename_i printable
      have noSlash : c ≠ '\\' := fun same => plain (.inr same)
      simp only [character,List.singleton_append,if_neg printable,if_pos noSlash]

theorem quotedPlain {s : List Char} (plain : ∀ c ∈ s, c ≠ '"' ∧ c ≠ '\\' ∧ 0x20 ≤ c.toNat) :
    quoted s = '"' :: (s ++ ['"']) := by
  have same : s.flatMap escaped = s := by
    induction s with
    | nil => rfl
    | cons c s ih =>
      obtain ⟨⟨quote,slash,printable⟩,later⟩ := List.forall_mem_cons.mp plain
      have one : escaped c = [c] := by
        rw [escaped, if_neg (fun marked => marked.elim quote slash), if_neg (Nat.not_lt.mpr printable)]
      rw [List.flatMap_cons, one, ih later]
      rfl
  rw [quoted, same]

theorem escapedHigh {c : Char} (high : 0x80 ≤ c.toNat) : escaped c = [c] := by
  unfold escaped
  rw [if_neg, if_neg (by omega)]
  rintro (rfl | rfl)
  · exact absurd high (by decide)
  · exact absurd high (by decide)

theorem escapedHead (c : Char) : ∃ d cs, escaped c = d :: cs ∧ d ≠ '"' := by
  unfold escaped
  split
  · exact ⟨'\\',[c],rfl,by decide⟩
  · rename_i plain
    split
    · exact ⟨'\\',_,rfl,by decide⟩
    · exact ⟨c,[],rfl,fun same => plain (.inl same)⟩

theorem stringEscaped {s : List Char} {fuel : Nat} (rest : List Char) (enough : s.length < fuel) :
    string fuel (s.flatMap escaped ++ '"' :: rest) = some (s,rest) := by
  induction fuel generalizing s with
  | zero => exact absurd enough (Nat.not_lt_zero _)
  | succ fuel ih =>
    cases s with
    | nil => exact if_pos rfl
    | cons c s =>
      obtain ⟨d,cs,found,other⟩ := escapedHead c
      have next := ih (s := s) (Nat.lt_of_succ_lt_succ enough)
      have first := characterEscaped c (s.flatMap escaped ++ '"' :: rest)
      rw [found, List.cons_append] at first
      rw [List.flatMap_cons, List.append_assoc, found, List.cons_append, string, if_neg other, first]
      simp only [Option.bind_eq_bind,Option.bind_some,next]

theorem flatMapEscapedLength (s : List Char) : s.length ≤ (s.flatMap escaped).length := by
  induction s with
  | nil => exact Nat.le_refl 0
  | cons c s ih =>
    obtain ⟨d,cs,found,_⟩ := escapedHead c
    simp only [List.flatMap_cons,List.length_append,List.length_cons,found]
    omega

theorem stringQuoted (s rest : List Char) :
    string (s.flatMap escaped ++ '"' :: rest).length (s.flatMap escaped ++ '"' :: rest) = some (s,rest) := by
  apply stringEscaped
  have long := flatMapEscapedLength s
  simp only [List.length_append,List.length_cons]
  omega

theorem leadPlain {c : Char} (lead : c = '-' ∨ c.isDigit = true) : isBlank c = false ∧
    ∀ d ∈ [']','"','[','{','n','t','f'], c ≠ d := by
  rcases lead with rfl | digit
  · exact ⟨rfl,by simp⟩
  · constructor
    · cases blank : isBlank c with
      | false => rfl
      | true =>
        simp only [isBlank,Bool.or_eq_true,beq_iff_eq] at blank
        rcases blank with ((rfl | rfl) | rfl) | rfl <;> exact absurd digit (by decide)
    · intro d mem same
      rw [same] at digit
      simp only [List.mem_cons,List.not_mem_nil,or_false] at mem
      rcases mem with rfl | rfl | rfl | rfl | rfl | rfl | rfl <;> exact absurd digit (by decide)

theorem textHead (v : Value) : ∃ c cs, text v = c :: cs ∧ isBlank c = false ∧ c ≠ ']' := by
  cases v with
  | null => exact ⟨'n',_,rfl,rfl,by decide⟩
  | bool b => cases b <;> exact ⟨_,_,rfl,rfl,by decide⟩
  | int n =>
    obtain ⟨c,cs,found,lead⟩ := signedHead n
    exact ⟨c,cs,found,(leadPlain lead).1,(leadPlain lead).2 ']' (by simp)⟩
  | real mantissa exponent =>
    obtain ⟨c,cs,found,lead⟩ := signedHead mantissa
    exact ⟨c,cs ++ 'e' :: signed exponent,by rw [text, found]; rfl,
      (leadPlain lead).1,(leadPlain lead).2 ']' (by simp)⟩
  | str s => exact ⟨'"',_,rfl,rfl,by decide⟩
  | arr items => exact ⟨'[',_,rfl,rfl,by decide⟩
  | obj fields => exact ⟨'{',_,rfl,rfl,by decide⟩

theorem blankCons {c : Char} (cs : List Char) (plain : isBlank c = false) : blank (c :: cs) = c :: cs :=
  List.dropWhile_cons_of_neg (by rw [plain]; exact Bool.false_ne_true)

theorem textsMap (vs : List Value) : texts vs = vs.map text := by
  induction vs with
  | nil => rfl
  | cons v vs ih => rw [texts, ih]; rfl

theorem fieldTextsMap (fields : List (List Char × Value)) :
    fieldTexts fields = fields.map (fun f => quoted f.1 ++ ':' :: text f.2) := by
  induction fields with
  | nil => rfl
  | cons f fields ih => rw [fieldTexts, ih]; rfl

theorem objText (fields : List (List Char × Value)) :
    text (.obj fields) = '{' :: ([','].intercalate (fields.map (fun f => quoted f.1 ++ ':' :: text f.2)) ++
      ['}']) := by
  rw [text, fieldTextsMap]

theorem natText (n : Nat) : text (.int (.ofNat n)) = digits n := by
  rw [text]
  rfl

section
variable {α : Type} {item : List Char → Option (α × List Char)} {close : Char}
  {write : α → List Char}

theorem sequenceWritten (comma : close ≠ ',') (plain : isBlank close = false) {xs : List α}
    (some : xs ≠ []) {fuel : Nat} (enough : xs.length ≤ fuel) (rest : List Char)
    (reads : ∀ x ∈ xs, ∀ c ∈ [close,','], ∀ cs,
      item (write x ++ c :: cs) = .some (x,c :: cs)) :
    sequence item close fuel ([','].intercalate (xs.map write) ++ close :: rest) = .some (xs,rest) := by
  induction fuel generalizing xs with
  | zero => exact absurd (List.eq_nil_of_length_eq_zero (Nat.le_zero.mp enough)) some
  | succ fuel ih =>
    cases xs with
    | nil => exact absurd rfl some
    | cons x xs =>
      have first := reads x List.mem_cons_self
      cases xs with
      | nil =>
        have last := first close (by simp) rest
        simp only [List.map_cons,List.map_nil,List.intercalate_singleton,sequence,last,
          Option.bind_eq_bind,Option.bind_some,blankCons rest plain,if_true]
      | cons y ys =>
        have next : sequence item close fuel ([','].intercalate ((y :: ys).map write) ++ close :: rest) =
            .some (y :: ys,rest) :=
          ih (List.cons_ne_nil _ _) (Nat.le_of_succ_le_succ enough)
            (fun z mem => reads z (List.mem_cons_of_mem _ mem))
        have last := first ',' (by simp)
          ([','].intercalate ((y :: ys).map write) ++ close :: rest)
        have skip : isBlank ',' = false := rfl
        rw [List.map_cons, List.intercalate_cons_of_ne_nil (by simp), List.append_assoc,
          List.append_assoc, List.singleton_append, sequence, last]
        simp only [Option.bind_eq_bind,Option.bind_some,blankCons _ skip,if_neg (Ne.symm comma),
          if_true,next]

theorem intercalateLength (ps : List (List Char)) (some : ∀ p ∈ ps, p ≠ []) :
    ps.length ≤ ([','].intercalate ps).length ∧
      ∀ p ∈ ps, p.length ≤ ([','].intercalate ps).length := by
  induction ps with
  | nil => exact ⟨Nat.le_refl _,nofun⟩
  | cons p ps ih =>
    obtain ⟨here,later⟩ := List.forall_mem_cons.mp some
    have pos := List.length_pos_of_ne_nil here
    cases ps with
    | nil =>
      simp only [List.intercalate_singleton,List.length_singleton,List.forall_mem_singleton]
      exact ⟨pos,Nat.le_refl _⟩
    | cons q ps =>
      obtain ⟨count,parts⟩ := ih later
      rw [List.intercalate_cons_of_ne_nil (List.cons_ne_nil q ps)]
      simp only [List.length_append,List.length_cons,List.length_nil] at count ⊢
      refine ⟨by omega,List.forall_mem_cons.mpr ⟨by omega,fun r mem => ?_⟩⟩
      have := parts r mem
      omega

theorem itemsWritten (comma : close ≠ ',') (plain : isBlank close = false) {xs : List α}
    (rest : List Char)
    (heads : ∀ x ∈ xs, ∃ c cs, write x = c :: cs ∧ isBlank c = false ∧ c ≠ close)
    (reads : ∀ x ∈ xs, ∀ c ∈ [close,','], ∀ cs,
      item (write x ++ c :: cs) = .some (x,c :: cs)) :
    items item close ([','].intercalate (xs.map write) ++ close :: rest) = .some (xs,rest) := by
  cases xs with
  | nil =>
    have skipped : blank (close :: rest) = close :: rest := blankCons rest plain
    exact (if_pos (by rw [List.map_nil, List.intercalate_nil, List.nil_append, skipped]; rfl)).trans
      (by rw [List.map_nil, List.intercalate_nil, List.nil_append, skipped]; rfl)
  | cons x xs =>
    obtain ⟨c,cs,found,seen,other⟩ := heads x List.mem_cons_self
    have front : ∃ tail, [','].intercalate ((x :: xs).map write) ++ close :: rest = c :: tail := by
      cases xs with
      | nil => exact ⟨_,by rw [List.map_singleton, List.intercalate_singleton, found]; rfl⟩
      | cons y ys =>
        exact ⟨_,by rw [List.map_cons, List.intercalate_cons_of_ne_nil (by simp), found]; rfl⟩
    have long := (intercalateLength ((x :: xs).map write) (by
      intro p mem
      obtain ⟨y,inside,rfl⟩ := List.mem_map.mp mem
      obtain ⟨d,ds,written,_⟩ := heads y inside
      exact written ▸ List.cons_ne_nil d ds)).1
    rw [List.length_map] at long
    obtain ⟨tail,whole⟩ := front
    have differs : ¬ (blank ([','].intercalate ((x :: xs).map write) ++ close :: rest)).head? =
        some close := by
      rw [whole, blankCons _ seen]
      exact fun same => other (Option.some.inj same)
    rw [items, if_neg differs]
    exact sequenceWritten comma plain (List.cons_ne_nil x xs)
      (by rw [List.length_append]; omega) rest reads

end

theorem namedWritten (name : String) (v : Value) (rest : List Char) :
    named name v (name.toList ++ rest) = some (v,rest) := by
  rw [named, if_pos (List.prefix_append _ _), ← String.length_toList, List.drop_left]

theorem memberWritten {fuel : Nat} {key : List Char} {v : Value} {rest : List Char}
    (reads : value fuel (text v ++ rest) = some (v,rest)) :
    member (value fuel) (quoted key ++ ':' :: text v ++ rest) = some ((key,v),rest) := by
  have quote : isBlank '"' = false := rfl
  have colon : isBlank ':' = false := rfl
  have whole : quoted key ++ ':' :: text v ++ rest =
      '"' :: (key.flatMap escaped ++ '"' :: (':' :: (text v ++ rest))) := by
    simp [quoted]
  rw [whole, member, blankCons _ quote]
  simp only [stringQuoted,Option.bind_eq_bind,Option.bind_some,blankCons _ colon,reads]

theorem valueNumber {fuel : Nat} {c : Char} {cs : List Char} (lead : c = '-' ∨ c.isDigit = true) :
    value (fuel + 1) (c :: cs) = number (c :: cs) := by
  obtain ⟨plain,others⟩ := leadPlain lead
  rw [value, blankCons _ plain]
  dsimp only
  rw [if_neg (others '"' (by simp)), if_neg (others '[' (by simp)), if_neg (others '{' (by simp)),
    if_neg (others 'n' (by simp)), if_neg (others 't' (by simp)), if_neg (others 'f' (by simp))]

theorem textSome (v : Value) : text v ≠ [] := by
  obtain ⟨c,cs,found,_⟩ := textHead v
  exact found ▸ List.cons_ne_nil c cs

theorem endsClose (rest : List Char) : ∀ c ∈ [']','}',','], Ends (c :: rest) := by
  intro c mem
  simp only [List.mem_cons,List.not_mem_nil,or_false] at mem
  rcases mem with rfl | rfl | rfl <;> exact endsCons rest (by decide)

/- The value that a text was written for is read back, whatever follows. -/
theorem valueText {fuel : Nat} {v : Value} {rest : List Char} (enough : (text v).length ≤ fuel)
    (ends : Ends rest) : value fuel (text v ++ rest) = some (v,rest) := by
  induction fuel generalizing v rest with
  | zero => exact absurd (List.eq_nil_of_length_eq_zero (Nat.le_zero.mp enough)) (textSome v)
  | succ fuel ih =>
    cases v with
    | null => exact namedWritten "ull" .null rest
    | bool b =>
      cases b with
      | true => exact namedWritten "rue" (.bool true) rest
      | false => exact namedWritten "alse" (.bool false) rest
    | int n =>
      obtain ⟨c,cs,found,lead⟩ := signedHead n
      have number := numberInt n ends
      rw [found, List.cons_append] at number
      rw [text, found, List.cons_append, valueNumber lead, number]
    | real mantissa exponent =>
      obtain ⟨c,cs,found,lead⟩ := signedHead mantissa
      have number := numberReal mantissa exponent ends
      rw [found, List.cons_append, List.cons_append] at number
      rw [text, found, List.cons_append, List.cons_append, valueNumber lead, number]
    | str s =>
      have whole : text (.str s) ++ rest = '"' :: (s.flatMap escaped ++ '"' :: rest) := by
        simp [text,quoted]
      have quote : isBlank '"' = false := rfl
      rw [whole, value, blankCons _ quote]
      dsimp only
      rw [if_pos rfl, stringQuoted]
      rfl
    | arr vs =>
      have whole : text (.arr vs) ++ rest = '[' :: ([','].intercalate (vs.map text) ++ ']' :: rest) := by
        simp [text,textsMap]
      have parts := (intercalateLength (vs.map text) (by
        intro p mem
        obtain ⟨v,_,rfl⟩ := List.mem_map.mp mem
        exact textSome v)).2
      have bracket : isBlank '[' = false := rfl
      rw [text, textsMap, List.length_cons, List.length_append] at enough
      have read : items (value fuel) ']' ([','].intercalate (vs.map text) ++ ']' :: rest) =
          some (vs,rest) := by
        refine itemsWritten (by decide) rfl rest (fun v _ => textHead v) ?_
        intro v mem c close cs
        have := parts (text v) (List.mem_map_of_mem mem)
        obtain rfl | rfl : c = ']' ∨ c = ',' := by simpa using close
        all_goals exact ih (by omega) (endsClose cs _ (by simp))
      rw [whole, value, blankCons _ bracket]
      dsimp only
      rw [if_neg (by decide), if_pos rfl, read]
      rfl
    | obj fields =>
      let write := fun (f : List Char × Value) => quoted f.1 ++ ':' :: text f.2
      have whole : text (.obj fields) ++ rest =
          '{' :: ([','].intercalate (fields.map write) ++ '}' :: rest) := by
        simp [text,fieldTextsMap,write]
      have parts := (intercalateLength (fields.map write) (by
        intro p mem
        obtain ⟨f,_,rfl⟩ := List.mem_map.mp mem
        exact List.cons_ne_nil _ _)).2
      have brace : isBlank '{' = false := rfl
      rw [text, fieldTextsMap, show (fun f => quoted f.1 ++ ':' :: text f.2) = write from rfl,
        List.length_cons, List.length_append] at enough
      have read : items (member (value fuel)) '}' ([','].intercalate (fields.map write) ++ '}' :: rest) =
          some (fields,rest) := by
        refine itemsWritten (by decide) rfl rest (fun f _ => ⟨'"',_,rfl,rfl,by decide⟩) ?_
        intro f mem c close cs
        have := parts (write f) (List.mem_map_of_mem mem)
        have inside : (write f).length = (quoted f.1).length + (text f.2).length + 1 := by
          simp [write]
          omega
        obtain rfl | rfl : c = '}' ∨ c = ',' := by simpa using close
        all_goals exact memberWritten (ih (by omega) (endsClose cs _ (by simp)))
      rw [whole, value, blankCons _ brace]
      dsimp only
      rw [if_neg (by decide), if_neg (by decide), if_pos rfl, read]
      rfl

theorem parseText (v : Value) : parse (text v) = some v := by
  have read := valueText (v := v) (Nat.le_refl _) endsNil
  rw [List.append_nil] at read
  rw [parse, read]
  rfl

end EpskcCommissioner.Json

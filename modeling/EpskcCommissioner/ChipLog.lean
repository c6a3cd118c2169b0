import EpskcCommissioner.LogRingCuts

/-! `log_chip_line` of `matter.cpp`: the console gets a line of CHIP's in pieces, and the log ring
gets what is worth of it in one call, out of a buffer of its own. -/
namespace EpskcCommissioner.ChipLog
open LogText LogRing LogClean LogJson LogChars LogRingCuts Utf8 Fitting Decimal
open String (utf8EncodeChar)

/- `chip::Logging::kLogCategory_Error` and `_Detail`, and the others. -/
inductive Category where
  | error | detail | progress
  deriving DecidableEq, Repr

/- LOG_COLOR_E, LOG_COLOR_I, LOG_COLOR_D and LOG_RESET_COLOR as they are configured. -/
structure Colors where
  error : List UInt8
  info : List UInt8
  debug : List UInt8
  reset : List UInt8

def Category.letter : Category → Char
  | .error => 'E'
  | .detail => 'D'
  | .progress => 'I'

def Category.color (colors : Colors) : Category → List UInt8
  | .error => colors.error
  | .detail => colors.debug
  | .progress => colors.info

def Category.level : Category → Nat
  | .error => 1
  | .detail => 4
  | .progress => 3

/- The `tag`, in its buffer of 11 bytes. -/
def chipTag (module : List UInt8) : List UInt8 := (encode "chip[".toList ++ module ++ encode "]".toList).take 10

def chipHead (category : Category) (now : UInt32) (tag : List UInt8) : List UInt8 :=
  encode (category.letter :: " (".toList ++ digits now.toNat ++ ") ".toList) ++ tag ++ encode ": ".toList

structure Output where
  console : List UInt8
  ring : Option (List UInt8)

/- `levelOf` is `esp_log_level_get`, and `msg` what the format and its arguments come to. -/
def logChipLine (colors : Colors) (levelOf : List UInt8 → Nat) (module : List UInt8) (category : Category)
    (now : UInt32) (msg : List UInt8) : Output :=
  let tag := chipTag module
  let head := chipHead category now tag
  let shown := decide (category.level ≤ levelOf tag)
  let line := (head ++ msg).take (logRingText - 1)
  ⟨category.color colors ++ head ++ (if shown then msg else []) ++ colors.reset ++ [0x0a],
    if shown ∧ head.length < logRingText then some (line.takeWhile (· != 0)) else none⟩

/- Text that `append_clean` takes byte for byte: it drops escapes and carriage returns. -/
def Counted (text : List UInt8) : Prop := ∀ b ∈ text, b ≠ 0x1b ∧ b ≠ 0x0d

instance (text : List UInt8) : Decidable (Counted text) := List.decidableBAll _ text

variable {c : UInt8} {ch : Char} {rest tail part text : List UInt8}

theorem charTails (high : 0x80 ≤ ch.toNat) (bytes : utf8EncodeChar ch = c :: tail) :
    (∀ b ∈ tail, IsTail b) ∧ 0x80 ≤ c.toNat ∧ tail.length ≤ 3 := by
  rcases highBytes high with ⟨b,d,same,lead,second⟩ | ⟨b,d,e,same,lead,second,third,_⟩ |
    ⟨b,d,e,f,same,lead,second,third,fourth,_⟩
  all_goals
    obtain ⟨rfl,rfl⟩ := List.cons.inj (bytes.symm.trans same)
    refine ⟨?_,by omega,by simp only [List.length_cons,List.length_nil]; omega⟩
  · exact List.forall_mem_singleton.mpr second
  · exact List.forall_mem_cons.mpr ⟨second,List.forall_mem_singleton.mpr third⟩
  · exact List.forall_mem_cons.mpr ⟨second,List.forall_mem_cons.mpr ⟨third,List.forall_mem_singleton.mpr fourth⟩⟩

theorem charLen (high : 0x80 ≤ ch.toNat) (bytes : utf8EncodeChar ch = c :: tail) (rest : List UInt8) :
    utf8Len (c :: (tail ++ rest)) = tail.length + 1 := by
  obtain ⟨b,others,same,_,long⟩ := utf8LenHigh high rest
  obtain ⟨rfl,rfl⟩ := List.cons.inj (bytes.symm.trans same)
  exact long

theorem wholeChar (whole : utf8Len (c :: rest) ≠ 0) : ∃ ch tail more, 0x80 ≤ Char.toNat ch ∧
    utf8EncodeChar ch = c :: tail ∧ rest = tail ++ more := by
  obtain ⟨ch,start,high⟩ := utf8LenChar whole
  obtain ⟨n,long⟩ := Nat.exists_eq_succ_of_ne_zero whole
  rw [long, List.take_succ_cons] at start
  exact ⟨ch,_,_,high,start.symm,(List.take_append_drop n rest).symm⟩

theorem lenExtends (whole : utf8Len (c :: part) ≠ 0) (more : List UInt8) :
    utf8Len (c :: (part ++ more)) = utf8Len (c :: part) := by
  obtain ⟨ch,tail,left,high,bytes,rfl⟩ := wholeChar whole
  rw [charLen high bytes, List.append_assoc, charLen high bytes]

theorem highPlain (high : 0x80 ≤ c.toNat) :
    c ≠ 0x1b ∧ c ≠ 0x0d ∧ ¬ (c < 0x20 || c == 0x7f) = true ∧ ¬ c < 0x80 := by
  refine ⟨?_,?_,?_,Nat.not_lt.mpr high⟩
  · rintro rfl
    exact absurd high (by decide)
  · rintro rfl
    exact absurd high (by decide)
  · simp only [Bool.or_eq_true,decide_eq_true_eq,beq_iff_eq,not_or]
    refine ⟨fun low => ?_,?_⟩
    · have small := UInt8.lt_iff_toNat_lt.mp low
      exact absurd (Nat.lt_of_le_of_lt high small) (by decide)
    · rintro rfl
      exact absurd high (by decide)

theorem brokenByte (high : 0x80 ≤ c.toNat) (broken : utf8Len (c :: rest) = 0) :
    cleanChars 0 (c :: rest) = '?' :: cleanChars 0 rest := by
  obtain ⟨escape,cr,control,ascii⟩ := highPlain high
  rw [cleanChars, if_neg escape, if_neg cr, if_neg control, charAt, if_neg ascii, broken]
  rfl

theorem charCleaned (high : 0x80 ≤ ch.toNat) (bytes : utf8EncodeChar ch = c :: tail) (rest : List UInt8) :
    cleanChars 0 (c :: (tail ++ rest)) = ch :: cleanChars 0 rest := by
  obtain ⟨escape,cr,control,ascii⟩ := highPlain (charTails high bytes).2.1
  have long := charLen high bytes rest
  have own : (c :: (tail ++ rest)).take (tail.length + 1) = utf8EncodeChar ch := by
    rw [bytes, List.take_succ_cons, List.take_left]
  have read : charAt c (tail ++ rest) = [ch] := by
    unfold charAt
    dsimp only
    rw [if_neg ascii, long, if_neg (Nat.succ_ne_zero _), own, decodeChar]
    rfl
  rw [cleanChars, if_neg escape, if_neg cr, if_neg control, read, long, Nat.add_sub_cancel, cleanCharsSkip]
  rfl

theorem tailsBroken (tails : ∀ b ∈ part, IsTail b) : cleanChars 0 part = List.replicate part.length '?' := by
  induction part with
  | nil => rfl
  | cons b part ih =>
    obtain ⟨first,others⟩ := List.forall_mem_cons.mp tails
    have broken : utf8Len (b :: part) = 0 := by
      by_contra whole
      obtain ⟨ch,tail,_,high,bytes,_⟩ := wholeChar whole
      rcases highBytes high with ⟨_,_,same,lead,_⟩ | ⟨_,_,_,same,lead,_⟩ | ⟨_,_,_,_,same,lead,_⟩
      all_goals
        obtain ⟨rfl,_⟩ := List.cons.inj (bytes.symm.trans same)
        have := first.2
        omega
    rw [brokenByte first.1 broken, ih others]
    rfl

theorem charCut (high : 0x80 ≤ ch.toNat) (bytes : utf8EncodeChar ch = c :: tail) (short : part.length < tail.length)
    (front : part <+: tail) : cleanChars 0 (c :: part) = List.replicate (part.length + 1) '?' := by
  obtain ⟨tails,lead,_⟩ := charTails high bytes
  have broken : utf8Len (c :: part) = 0 := by
    by_contra whole
    obtain ⟨more,rfl⟩ := front
    have long := charLen high bytes []
    rw [List.append_nil, lenExtends whole] at long
    have inside := (utf8LenInside whole).1
    omega
  rw [brokenByte lead broken, tailsBroken fun b mem => tails b (front.subset mem)]
  rfl

/- What a text starts with: a byte that comes to one character whatever is behind it, or a
character of several. -/
inductive Begins (c : UInt8) (rest : List UInt8) : Prop where
  | byte (ch : Char) (size : charSize ch = 1)
      (clean : ∀ front, front <+: rest → cleanChars 0 (c :: front) = ch :: cleanChars 0 front) : Begins c rest
  | char (ch : Char) (tail more : List UInt8) (high : 0x80 ≤ ch.toNat) (bytes : utf8EncodeChar ch = c :: tail)
      (behind : rest = tail ++ more) : Begins c rest

theorem begins (counted : c ≠ 0x1b ∧ c ≠ 0x0d) : Begins c rest := by
  by_cases control : (c < 0x20 || c == 0x7f) = true
  · refine .byte ' ' rfl fun front _ => ?_
    rw [cleanChars, if_neg counted.1, if_neg counted.2, if_pos control]
  · by_cases ascii : c < 0x80
    · refine .byte (Char.ofNat c.toNat) (asciiChar ascii).1 fun front _ => ?_
      rw [cleanChars, if_neg counted.1, if_neg counted.2, if_neg control, charAt, if_pos ascii, asciiLen front ascii]
      rfl
    · by_cases broken : utf8Len (c :: rest) = 0
      · refine .byte '?' rfl fun front inside => brokenByte (Nat.not_lt.mp ascii) ?_
        by_contra whole
        obtain ⟨more,rfl⟩ := inside
        exact whole (lenExtends whole more ▸ broken)
      · obtain ⟨ch,tail,more,high,bytes,behind⟩ := wholeChar broken
        exact .char ch tail more high bytes behind

/- Cutting the text before it is cleaned is cutting it afterwards, but for the bytes that the
cut leaves of a character. -/
theorem cutChars (counted : Counted text) (room : Nat) : ∃ k, k < 4 ∧
    cleanChars 0 (text.take room) = fitting charSize room (cleanChars 0 text) ++ List.replicate k '?' ∧
    total charSize (fitting charSize room (cleanChars 0 text)) + k = min room text.length := by
  induction long : text.length using Nat.strongRecOn generalizing text room with
  | ind n ih =>
    subst long
    cases text with
    | nil => exact ⟨0,by decide,by simp [cleanChars,fitting],by simp [cleanChars,fitting]⟩
    | cons c rest =>
      obtain ⟨first,others⟩ := List.forall_mem_cons.mp counted
      cases room with
      | zero =>
        refine ⟨0,by decide,?_,?_⟩
        · rw [fittingFull]
          rfl
        · rw [fittingFull, totalNil, Nat.zero_min]
      | succ room =>
        cases @begins c rest first with
        | byte ch size clean =>
          obtain ⟨k,few,cut,sum⟩ := ih rest.length (Nat.lt_succ_self _) others room rfl
          refine ⟨k,few,?_,?_⟩
          · rw [List.take_succ_cons, clean _ (List.take_prefix _ _), clean _ (List.prefix_refl _), fitting, size,
              if_pos (by omega), cut, Nat.add_sub_cancel]
            rfl
          · rw [clean _ (List.prefix_refl _), fitting, size, if_pos (by omega), totalCons, size, Nat.add_sub_cancel,
              List.length_cons]
            omega
        | char ch tail more high bytes behind =>
          subst behind
          have size : charSize ch = tail.length + 1 := congrArg List.length bytes
          rw [charCleaned high bytes, fitting, size, List.take_succ_cons]
          by_cases fits : tail.length ≤ room
          · have later : Counted more := (List.forall_mem_append.mp others).2
            obtain ⟨k,few,cut,sum⟩ := ih more.length (by simp only [List.length_cons,List.length_append]; omega)
              later (room - tail.length) rfl
            have place : room + 1 - (tail.length + 1) = room - tail.length := by omega
            refine ⟨k,few,?_,?_⟩
            · rw [if_pos (by omega), List.take_append, List.take_of_length_le fits, charCleaned high bytes, cut, place]
              rfl
            · rw [if_pos (by omega), totalCons, size, place, List.length_cons, List.length_append]
              omega
          · have few := (charTails high bytes).2.2
            refine ⟨room + 1,by omega,?_,?_⟩
            · have short : ((tail ++ more).take room).length = room := by
                rw [List.length_take, List.length_append]
                omega
              have front : (tail ++ more).take room <+: tail := by
                rw [List.take_append_of_le_length (by omega)]
                exact List.take_prefix _ _
              rw [if_neg (by omega), charCut high bytes (by omega) front, short]
              rfl
            · rw [if_neg (by omega), totalNil, List.length_cons, List.length_append]
              omega

theorem cutText (counted : Counted text) : ∃ k, k < 4 ∧ (text.length ≤ textRoom → k = 0) ∧
    (appendClean .empty (text.take textRoom)).bytes = trimmed text ++ List.replicate k 0x3f := by
  obtain ⟨k,few,cut,sum⟩ := cutChars counted textRoom
  have marks : ∀ k, total charSize (List.replicate k '?') = k := by
    intro k
    induction k with
    | zero => rfl
    | succ k ih =>
      rw [List.replicate_succ, totalCons, ih, show charSize '?' = 1 from rfl]
      omega
  have bytes : ∀ k, encode (List.replicate k '?') = List.replicate k 0x3f := by
    intro k
    induction k with
    | zero => rfl
    | succ k ih =>
      rw [List.replicate_succ, encodeCons, ih]
      rfl
  refine ⟨k,few,fun short => ?_,?_⟩
  · rw [List.take_of_length_le short] at cut
    have all := congrArg (total charSize) cut
    rw [totalAppend, marks, sum, Nat.min_eq_right short] at all
    rw [fittingAll (by omega)] at cut
    exact (List.replicate_eq_nil_iff _).mp (List.append_right_eq_self.mp cut.symm)
  · have room : total charSize (cleanChars 0 (text.take textRoom)) ≤ textRoom := by
      rw [cut, totalAppend, marks, sum]
      exact Nat.min_le_left _ _
    rw [appendCleanChars]
    show encode (fitting charSize (textRoom - 0) _) = _
    rw [Nat.sub_zero, fittingAll room, cut, encodeAppend, bytes]
    rfl

/- A color as the terminal takes it, or none. -/
def Sgr (color : List UInt8) : Prop :=
  color = [] ∨ ∃ codes : List UInt8, color = 0x1b :: 0x5b :: (codes ++ [0x6d]) ∧ ∀ b ∈ codes, b < 0x40 ∧ b ≠ 0x0a

structure Colors.Sgr (colors : Colors) : Prop where
  error : ChipLog.Sgr colors.error
  info : ChipLog.Sgr colors.info
  debug : ChipLog.Sgr colors.debug
  reset : ChipLog.Sgr colors.reset

variable {color reset : List UInt8}

theorem colorDropped (sgr : Sgr color) (rest : List UInt8) : cleanChars 0 (color ++ rest) = cleanChars 0 rest := by
  rcases sgr with rfl | ⟨codes,rfl,low⟩
  · rfl
  · have front : (codes ++ (0x6d :: rest)).takeWhile (fun b : UInt8 => b < 0x40 || b > 0x7e) = codes := by
      rw [List.takeWhile_append_of_pos fun b mem => Bool.or_eq_true_iff.mpr (.inl (decide_eq_true (low b mem).1))]
      rw [List.takeWhile_cons_of_neg (by decide), List.append_nil]
    have long : escapeLen (0x5b :: (codes ++ (0x6d :: rest))) = (0x5b :: (codes ++ [0x6d])).length := by
      rw [escapeLen, front, List.length_cons, List.length_append, List.length_singleton]
      omega
    have whole : 0x1b :: 0x5b :: (codes ++ [0x6d]) ++ rest = 0x1b :: ((0x5b :: (codes ++ [0x6d])) ++ rest) := rfl
    have behind : (0x5b :: (codes ++ [0x6d])) ++ rest = 0x5b :: (codes ++ (0x6d :: rest)) := by simp
    rw [whole, cleanChars, if_pos rfl, behind, long, ← behind, cleanCharsSkip]

theorem colorApart (counted : Counted text) (sgr : Sgr reset) : Apart 0 text reset := by
  rcases sgr with rfl | ⟨codes,rfl,low⟩
  · have none : ∀ (skip : Nat) (xs : List UInt8), Apart skip xs [] := by
      intro skip xs
      induction xs generalizing skip with
      | nil => cases skip <;> trivial
      | cons c xs ih => cases skip <;> exact ih _
    exact none 0 text
  · induction long : text.length using Nat.strongRecOn generalizing text with
    | ind n ih =>
      subst long
      cases text with
      | nil => trivial
      | cons c rest =>
        obtain ⟨first,others⟩ := List.forall_mem_cons.mp counted
        have skips : ∀ (tail more : List UInt8), Apart tail.length (tail ++ more) (0x1b :: 0x5b :: (codes ++ [0x6d])) ↔
            Apart 0 more (0x1b :: 0x5b :: (codes ++ [0x6d])) := by
          intro tail more
          induction tail with
          | nil => exact Iff.rfl
          | cons b tail ih => exact ih
        unfold Apart tailLen
        rw [if_neg first.1]
        by_cases whole : utf8Len (c :: (rest ++ 0x1b :: 0x5b :: (codes ++ [0x6d]))) = 0
        · rw [whole]
          exact ih rest.length (Nat.lt_succ_self _) others rfl
        · obtain ⟨ch,tail,more,high,bytes,behind⟩ := wholeChar whole
          have inside : tail.length ≤ rest.length := by
            by_contra beyond
            have found : tail[rest.length]? = some 0x1b := by
              have place := congrArg (fun xs : List UInt8 => xs[rest.length]?) behind
              simp only [List.getElem?_append_right (Nat.le_refl _), Nat.sub_self, List.getElem?_cons_zero] at place
              rw [List.getElem?_append_left (by omega)] at place
              exact place.symm
            have continues := (charTails high bytes).1 0x1b (List.mem_of_getElem? found)
            exact absurd continues.1 (by decide)
          obtain ⟨left,split⟩ : ∃ left, rest = tail ++ left := by
            refine ⟨rest.drop tail.length,?_⟩
            have front := congrArg (List.take tail.length) behind
            rw [List.take_append_of_le_length inside, List.take_left] at front
            exact (List.take_append_drop tail.length rest).symm.trans (congrArg (· ++ _) front)
          subst split
          rw [List.append_assoc, charLen high bytes, Nat.add_sub_cancel, skips]
          refine ih left.length ?_ (List.forall_mem_append.mp others).2 rfl
          simp only [List.length_cons,List.length_append]
          omega

theorem colorsTrimmed (counted : Counted text) (front : Sgr color) (behind : Sgr reset) :
    trimmed (color ++ text ++ reset) = trimmed text := by
  have nothing : cleanChars 0 reset = [] := by
    have := colorDropped behind []
    rwa [List.append_nil] at this
  unfold trimmed
  rw [List.append_assoc, colorDropped front, cleanApart (colorApart counted behind), nothing, List.append_nil]

theorem ingestLine {task : Nat} {nowMs : UInt32} {line : List UInt8} {ram : Ram} (inside : ∀ b ∈ line, b ≠ 0x0a)
    (some : line ≠ []) (cur : ram.cur ≠ none) (free : findPending task ram = none) :
    (ingest task nowMs (line ++ [0x0a]) ram).2 = [(commitLocked none line nowMs ram).2] := by
  have loop : ∀ (rest segment : List UInt8), (∀ b ∈ rest, b ≠ 0x0a) → segment ++ rest ≠ [] →
      (ingestLoop task nowMs (rest ++ [0x0a]) segment none ram).2 = [(commitLocked none (segment ++ rest) nowMs ram).2] := by
    intro rest
    induction rest with
    | nil =>
      intro segment _ nonempty
      rw [List.append_nil] at nonempty ⊢
      rw [List.nil_append, ingestLoop, if_neg (fun wrong => wrong rfl), if_pos (.inl nonempty)]
      rfl
    | cons b rest ih =>
      intro segment plain nonempty
      obtain ⟨first,others⟩ := List.forall_mem_cons.mp plain
      have moved : segment ++ b :: rest = (segment ++ [b]) ++ rest := by simp
      rw [List.cons_append, ingestLoop, if_pos first, moved]
      exact ih (segment ++ [b]) others (by simp)
  have running := ringRuns cur
  have nonempty : (line ++ [0x0a]).isEmpty = false := by cases line <;> rfl
  unfold ingest
  rw [running, nonempty, free]
  exact loop line [] inside some

/- Nothing in a name or a text that ends a line or a C string, or that the ring drops. -/
def OneLine (text : List UInt8) : Prop := ∀ b ∈ text, b ≠ 0x0a ∧ b ≠ 0x00 ∧ b ≠ 0x1b ∧ b ≠ 0x0d

instance (text : List UInt8) : Decidable (OneLine text) := List.decidableBAll _ text

theorem oneLineAppend {xs ys : List UInt8} (first : OneLine xs) (second : OneLine ys) : OneLine (xs ++ ys) :=
  List.forall_mem_append.mpr ⟨first,second⟩

theorem oneLineEncode {cs : List Char} (shown : ∀ c ∈ cs, Shown c) : OneLine (encode cs) := by
  intro b mem
  have plain := (plainEncode.mpr shown) b mem
  refine ⟨?_,?_,?_,?_⟩
  all_goals
    rintro rfl
    exact absurd plain.1 (by decide)

theorem shownAll {cs : List Char} (all : cs.all (fun c => 0x20 ≤ c.toNat && c.toNat != 0x7f) = true) : ∀ c ∈ cs, Shown c := by
  intro c mem
  have found := List.all_eq_true.mp all c mem
  simp only [Bool.and_eq_true,decide_eq_true_eq,bne_iff_ne] at found
  exact found

theorem digitsShown (n : Nat) : ∀ c ∈ digits n, Shown c := by
  intro c mem
  have digit := digitsAll mem
  simp only [Char.isDigit,Bool.and_eq_true,decide_eq_true_eq] at digit
  have low := UInt32.le_iff_toNat_le.mp digit.1
  have high := UInt32.le_iff_toNat_le.mp digit.2
  change 48 ≤ c.toNat at low
  change c.toNat ≤ 57 at high
  exact ⟨by omega,by omega⟩

theorem chipHeadOneLine (category : Category) (now : UInt32) {module : List UInt8} (plain : OneLine module) :
    OneLine (chipHead category now (chipTag module)) := by
  unfold chipHead chipTag
  refine oneLineAppend (oneLineAppend (oneLineEncode ?_) ?_) (oneLineEncode (shownAll rfl))
  · refine List.forall_mem_append.mpr ⟨List.forall_mem_append.mpr ⟨?_,digitsShown _⟩,shownAll rfl⟩
    cases category <;> exact shownAll rfl
  · intro b mem
    exact oneLineAppend (oneLineAppend (oneLineEncode (shownAll rfl)) plain) (oneLineEncode (shownAll rfl)) b
      (List.mem_of_mem_take mem)

theorem chipHeadShort (category : Category) (now : UInt32) (module : List UInt8) :
    (chipHead category now (chipTag module)).length < logRingText := by
  have tag : (chipTag module).length ≤ 10 := List.length_take_le _ _
  have number : (digits now.toNat).length ≤ 10 := digitsLength (by decide) (Nat.lt_trans now.toNat_lt (by decide))
  have asciiDigits : ∀ c ∈ digits now.toNat, c.toNat < 0x80 := by
    intro c mem
    have digit := digitsAll mem
    simp only [Char.isDigit,Bool.and_eq_true,decide_eq_true_eq] at digit
    have high := UInt32.le_iff_toNat_le.mp digit.2
    change c.toNat ≤ 57 at high
    omega
  unfold chipHead logRingText
  rw [encodeAppend, encodeAppend, List.length_append, List.length_append, List.length_append, List.length_append,
    encodeLength asciiDigits]
  have letter : (encode (category.letter :: " (".toList)).length = 3 := by cases category <;> rfl
  have paren : (encode ") ".toList).length = 2 := rfl
  have colon : (encode ": ".toList).length = 2 := rfl
  omega

theorem categorySgr {colors : Colors} (sgr : colors.Sgr) (category : Category) : Sgr (category.color colors) := by
  cases category with
  | error => exact sgr.error
  | detail => exact sgr.debug
  | progress => exact sgr.info

/- A line of CHIP's that is shown is in the ring as if the ring had had all of it from the console:
but that the ring's buffer may cut a character, which then ends in question marks. -/
theorem chipLineKept {colors : Colors} (sgr : colors.Sgr) (levelOf : List UInt8 → Nat) (module msg : List UInt8)
    (category : Category) (now nowMs : UInt32) (task : Nat) (ram : Ram) (name : OneLine module) (plain : OneLine msg)
    (shown : category.level ≤ levelOf (chipTag module)) (cur : ram.cur ≠ none) (free : findPending task ram = none) :
    ∃ line own whole k, (logChipLine colors levelOf module category now msg).ring = some line ∧
      (logRingLine nowMs line ram).2 = [own] ∧
      (ingest task nowMs (logChipLine colors levelOf module category now msg).console ram).2 = [whole] ∧
      own.text.bytes = whole.text.bytes ++ List.replicate k 0x3f ∧ k < 4 ∧ own.seq = whole.seq ∧
      ((chipHead category now (chipTag module) ++ msg).length ≤ 179 → k = 0) := by
  have text := oneLineAppend (chipHeadOneLine category now name) plain
  have short := chipHeadShort category now module
  have color := categorySgr sgr category
  have output : logChipLine colors levelOf module category now msg =
      ⟨category.color colors ++ chipHead category now (chipTag module) ++ msg ++ colors.reset ++ [0x0a],
        some (((chipHead category now (chipTag module) ++ msg).take textRoom).takeWhile (· != 0))⟩ := by
    unfold logChipLine
    dsimp only
    rw [decide_eq_true shown, if_pos rfl, if_pos ⟨rfl,short⟩]
    rfl
  have headed : chipHead category now (chipTag module) ≠ [] := by
    unfold chipHead
    exact List.append_ne_nil_of_right_ne_nil _ (by decide)
  rw [output]
  generalize chipHead category now (chipTag module) = head at text headed ⊢
  have counted : Counted (head ++ msg) := fun b mem => (text b mem).2.2
  obtain ⟨k,few,fits,cut⟩ := cutText counted
  have whole : ((head ++ msg).take textRoom).takeWhile (· != 0) = (head ++ msg).take textRoom :=
    List.takeWhile_eq_self_iff.mpr fun b mem => bne_iff_ne.mpr (text b (List.mem_of_mem_take mem)).2.1
  have ended : ∀ {color : List UInt8}, Sgr color → ∀ b ∈ color, b ≠ 0x0a := by
    rintro color (rfl | ⟨codes,rfl,low⟩) b mem
    · exact absurd mem List.not_mem_nil
    · rcases List.mem_cons.mp mem with rfl | mem
      · decide
      · rcases List.mem_cons.mp mem with rfl | mem
        · decide
        · rcases List.mem_append.mp mem with code | last
          · exact (low b code).2
          · rw [List.mem_singleton.mp last]
            decide
  have body : ∀ b ∈ category.color colors ++ (head ++ msg) ++ colors.reset, b ≠ 0x0a := by
    intro b mem
    rcases List.mem_append.mp mem with mem | last
    · rcases List.mem_append.mp mem with first | middle
      · exact ended color b first
      · exact (text b middle).1
    · exact ended sgr.reset b last
  have nonempty : category.color colors ++ (head ++ msg) ++ colors.reset ≠ [] := by simp [headed]
  refine ⟨_,(commitLocked none ((head ++ msg).take textRoom) nowMs ram).2,
    (commitLocked none (category.color colors ++ (head ++ msg) ++ colors.reset) nowMs ram).2,k,rfl,?_,?_,?_,few,rfl,fits⟩
  · rw [logRingLine, ringRuns cur, whole]
    rfl
  · rw [← ingestLine body nonempty cur free]
    simp only [List.append_assoc]
  · show (appendClean .empty ((head ++ msg).take textRoom)).bytes = _
    rw [cut]
    refine congrArg (· ++ List.replicate k 0x3f) ?_
    show trimmed (head ++ msg) = (appendClean .empty (category.color colors ++ (head ++ msg) ++ colors.reset)).bytes
    rw [← colorsTrimmed counted color sgr.reset, appendCleanChars]
    rfl

def espColors : Colors where
  error := [0x1b,0x5b,0x30,0x3b,0x33,0x31,0x6d]
  info := [0x1b,0x5b,0x30,0x3b,0x33,0x32,0x6d]
  debug := []
  reset := [0x1b,0x5b,0x30,0x6d]

theorem espSgr : espColors.Sgr where
  error := .inr ⟨[0x30,0x3b,0x33,0x31],rfl,by decide +kernel⟩
  info := .inr ⟨[0x30,0x3b,0x33,0x32],rfl,by decide +kernel⟩
  debug := .inl rfl
  reset := .inr ⟨[0x30],rfl,by decide +kernel⟩

/- "I (7) chip[DMG]: ok" with colors, from a task that logs nothing else. -/
theorem chipLineKeptShort : ∃ own whole : Commit,
    (ingest 1 7 (logChipLine espColors (fun _ => 3) [0x44,0x4d,0x47] .progress 7 [0x6f,0x6b]).console
      (Ram.start 0 .cleared)).2 = [whole] ∧ own.text.bytes = whole.text.bytes ∧ own.seq = 1 := by
  obtain ⟨line,own,whole,k,ring,said,heard,same,_,_,fits⟩ := chipLineKept espSgr (fun _ => 3) [0x44,0x4d,0x47] [0x6f,0x6b]
    .progress 7 7 1 (Ram.start 0 .cleared) (by decide) (by decide) (Nat.le_refl 3) (Option.some_ne_none _) rfl
  rw [fits (by decide +kernel)] at same
  refine ⟨own,whole,heard,same.trans (List.append_nil _),?_⟩
  cases said
  rfl

end EpskcCommissioner.ChipLog

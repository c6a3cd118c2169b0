import EpskcCommissioner.DatasetHex

/-! The two spellings of a dataset body, bare and quoted. White space is dropped in front of
either, and behind the closing quote; behind bare text it stays in the payload. -/
namespace EpskcCommissioner.DatasetForms
open WifiDriver DatasetHex Hex

variable {State : Type}

/- The string that `PUT /node/dataset/active` gives to `thread_set_dataset_hex`, or nothing
where it answers before that. -/
def handed (body : List UInt8) : Option (List UInt8) :=
  match otbrRestParseDatasetHexBody body with
  | none | some [] => none
  | some (c :: rest) => if c = 0x7b then none else some (c :: rest)

/- The same becomes of both bodies, whatever is done with the bytes and however they
arrive: one is applied exactly when the other is, and the state afterwards is the same. -/
def SameFate (one other : List UInt8) : Prop :=
  ∀ (State : Type) (join : List UInt8 → State → State × EspErr) (accepted : Bool) (t : State)
    (reads more : List (List UInt8)), Delivers reads one → Delivers more other →
    (hDatasetActivePut join accepted one.length reads t).1 =
      (hDatasetActivePut join accepted other.length more t).1 ∧
    ((hDatasetActivePut join accepted one.length reads t).2 = applied ↔
      (hDatasetActivePut join accepted other.length more t).2 = applied)

structure Equivalent (one other : List UInt8) : Prop where
  handed : handed one = handed other
  fate : SameFate one other

variable {join : List UInt8 → State → State × EspErr} {accepted : Bool}
  {reads : List (List UInt8)} {body hex before text behind : List UInt8}

def answer (join : List UInt8 → State → State × EspErr) (accepted : Bool) (hex : List UInt8)
    (s : State) : State × Reply :=
  if accepted then
    ((threadSetDatasetHex join hex s).1,
      if (threadSetDatasetHex join hex s).2 = espOk then applied else expectedHex)
  else (s,expectedHex)

theorem putHands (s : State) (delivered : Delivers reads body) (short : body.length < bodySize)
    (noNul : 0 ∉ body) (found : handed body = some hex) :
    hDatasetActivePut join accepted body.length reads s = answer join accepted hex s := by
  have received := bodyReceived delivered short noNul
  cases body with
  | nil => cases found
  | cons b bytes =>
    unfold handed at found
    unfold hDatasetActivePut answer
    rw [if_neg (Nat.not_le.mpr short), received]
    cases parsed : otbrRestParseDatasetHexBody (b :: bytes) with
    | none => simp [parsed] at found
    | some payload =>
      cases payload with
      | nil => simp [parsed] at found
      | cons c rest =>
        simp only [parsed] at found
        split at found
        · cases found
        · rename_i plain
          cases found
          simp only [parsed,plain,if_false]
          cases accepted <;> rfl

theorem badRequestRefuses (text : String) : badRequest text ≠ applied :=
  fun same => absurd (congrArg Reply.status same) (show "400 Bad Request" ≠ "200 OK" by decide)

theorem putTurnsAway (join : List UInt8 → State → State × EspErr) (accepted : Bool) (s : State)
    (delivered : Delivers reads body) (short : body.length < bodySize) (noNul : 0 ∉ body) (nothing : handed body = none) :
    (hDatasetActivePut join accepted body.length reads s).1 = s ∧
      (hDatasetActivePut join accepted body.length reads s).2 ≠ applied := by
  have received := bodyReceived delivered short noNul
  unfold hDatasetActivePut
  rw [if_neg (Nat.not_le.mpr short), received]
  cases body with
  | nil => exact ⟨rfl,badRequestRefuses _⟩
  | cons b bytes =>
    unfold handed at nothing
    cases parsed : otbrRestParseDatasetHexBody (b :: bytes) with
    | none =>
      simp only [parsed]
      exact ⟨trivial,badRequestRefuses _⟩
    | some payload =>
      cases payload with
      | nil =>
        simp only [parsed]
        exact ⟨trivial,badRequestRefuses _⟩
      | cons c rest =>
        simp only [parsed] at nothing
        split at nothing
        · rename_i object
          simp only [parsed,object,if_true]
          exact ⟨trivial,badRequestRefuses _⟩
        · cases nothing

theorem answerRejected (join : List UInt8 → State → State × EspErr) (accepted : Bool) (s : State)
    (bad : ¬IsDatasetHex hex) :
    (answer join accepted hex s).1 = s ∧ (answer join accepted hex s).2 ≠ applied := by
  unfold answer
  rw [setDatasetRejects s bad]
  have refused : (if espErrInvalidArg = espOk then applied else expectedHex) ≠ applied := by decide
  cases accepted
  · exact ⟨rfl,badRequestRefuses _⟩
  · exact ⟨rfl,refused⟩

theorem bareForm (digits : ∀ c ∈ text, isDigit c = true) (first : Spaces before) (last : Spaces behind) :
    handed (before ++ text ++ behind) = if text = [] then none else some (text ++ behind) := by
  unfold handed otbrRestParseDatasetHexBody
  rw [List.append_assoc, dropSpaces first]
  cases text with
  | nil =>
    rw [List.nil_append, noSpaceLeft last]
    rfl
  | cons c rest =>
    obtain ⟨_,plain,notQuote,_,notBrace⟩ := digitPlain (digits c List.mem_cons_self)
    simp [plain,notQuote,notBrace]

theorem quotedForm (digits : ∀ c ∈ text, isDigit c = true) (first : Spaces before) (last : Spaces behind) :
    handed (before ++ quoted text ++ behind) = if text = [] then none else some text := by
  have noQuote : ∀ c ∈ text, (c != quote) = true := fun c mem =>
    bne_iff_ne.mpr (digitPlain (digits c mem)).2.2.1
  have noEscape : backslash ∉ text := fun mem => (digitPlain (digits _ mem)).2.2.2.1 rfl
  have payload : (text ++ quote :: behind).takeWhile (· != quote) = text := by
    rw [List.takeWhile_append_of_pos noQuote]
    simp
  have opened : (before ++ quoted text ++ behind).dropWhile isSpace = quote :: (text ++ quote :: behind) := by
    rw [List.append_assoc, dropSpaces first]
    simp [quoted,quote,isSpace]
  have parsed : otbrRestParseDatasetHexBody (before ++ quoted text ++ behind) = some text := by
    unfold otbrRestParseDatasetHexBody
    rw [opened]
    simp [payload,noEscape,noSpaceLeft last]
  unfold handed
  rw [parsed]
  cases text with
  | nil => rfl
  | cons c rest => simp [(digitPlain (digits c List.mem_cons_self)).2.2.2.2]

theorem plainBodies (digits : ∀ c ∈ text, isDigit c = true) (first : Spaces before) (last : Spaces behind)
    (short : (before ++ quoted text ++ behind).length < bodySize) :
    (before ++ text ++ behind).length < bodySize ∧ 0 ∉ before ++ text ++ behind ∧
      0 ∉ before ++ quoted text ++ behind := by
  have noNul : ∀ {spaces : List UInt8}, Spaces spaces → 0 ∉ spaces :=
    fun blank mem => absurd (blank 0 mem) (by decide)
  have fixed : (0 : UInt8) ≠ quote := by decide
  refine ⟨?_,?_,?_⟩
  · simp only [quoted,List.length_append,List.length_cons,List.length_nil] at short ⊢
    omega
  · simp only [List.mem_append,not_or]
    exact ⟨⟨noNul first,digitsNoNul digits⟩,noNul last⟩
  · simp only [quoted,List.mem_append,List.mem_cons,List.not_mem_nil,not_or,or_false]
    exact ⟨⟨noNul first,⟨fixed,digitsNoNul digits⟩,fixed⟩,noNul last⟩

theorem trailedRejected (last : Spaces behind) (some : behind ≠ []) : ¬IsDatasetHex (text ++ behind) := by
  rintro ⟨_,_,_,digits⟩
  obtain ⟨c,rest,rfl⟩ := List.exists_cons_of_ne_nil some
  have blank := last c List.mem_cons_self
  have plain := (digitPlain (digits c (by simp))).2.1
  rw [blank] at plain
  cases plain

theorem sameFate {one other : List UInt8} (same : handed one = handed other)
    (short : one.length < bodySize) (shortToo : other.length < bodySize) (noNul : 0 ∉ one)
    (noNulToo : 0 ∉ other) : SameFate one other := by
  intro State join accepted t reads more delivered deliveredToo
  cases found : handed one with
  | none =>
    have here := putTurnsAway join accepted t delivered short noNul found
    have there := putTurnsAway join accepted t deliveredToo shortToo noNulToo
      (same ▸ found)
    exact ⟨here.1.trans there.1.symm,iff_of_false here.2 there.2⟩
  | some hex =>
    rw [putHands t delivered short noNul found, putHands t deliveredToo shortToo noNulToo (same ▸ found)]
    exact ⟨rfl,Iff.rfl⟩

/- Text that reads as a dataset is taken in quotes and turned away bare, once white space
follows it. -/
theorem trailedDiffers (good : IsDatasetHex text) (first : Spaces before) (last : Spaces behind)
    (some : behind ≠ []) (short : (before ++ quoted text ++ behind).length < bodySize) :
    ¬SameFate (before ++ text ++ behind) (before ++ quoted text ++ behind) := by
  intro same
  obtain ⟨nonempty,even,sized,digits⟩ := id good
  obtain ⟨shortBare,noNul,noNulQuoted⟩ := plainBodies digits first last short
  obtain ⟨tlvs,read⟩ := Option.isSome_iff_exists.mp ((decodeSome text).mpr ⟨even,digits⟩)
  have whole : ∀ body : List UInt8, body ≠ [] → Delivers [body] body :=
    fun body long => ⟨List.flatten_singleton,by simpa using long.symm⟩
  have bare := whole (before ++ text ++ behind) (by simp [nonempty])
  have inQuotes := whole (before ++ quoted text ++ behind) (by simp [quoted])
  have record := (same (List (List UInt8)) (fun tlvs calls => (tlvs :: calls,espOk)) true [] _ _
    bare inQuotes).1
  rw [putHands [] bare shortBare noNul ((bareForm digits first last).trans (if_neg nonempty)),
    putHands [] inQuotes short noNulQuoted ((quotedForm digits first last).trans (if_neg nonempty)),
    (answerRejected _ _ [] (trailedRejected last some)).1] at record
  unfold answer at record
  rw [if_pos rfl, setDatasetPasses _ [] nonempty sized read] at record
  cases record

theorem sameFateExact (digits : ∀ c ∈ text, isDigit c = true) (first : Spaces before)
    (last : Spaces behind) (short : (before ++ quoted text ++ behind).length < bodySize) :
    SameFate (before ++ text ++ behind) (before ++ quoted text ++ behind) ↔
      behind = [] ∨ ¬IsDatasetHex text := by
  obtain ⟨shortBare,noNul,noNulQuoted⟩ := plainBodies digits first last short
  constructor
  · intro same
    by_cases trailed : behind = []
    · exact .inl trailed
    · exact .inr fun good => trailedDiffers good first last trailed short same
  · intro plain
    by_cases same : handed (before ++ text ++ behind) = handed (before ++ quoted text ++ behind)
    · exact sameFate same shortBare short noNul noNulQuoted
    · have nonempty : text ≠ [] := by
        rintro rfl
        exact same ((bareForm digits first last).trans (quotedForm digits first last).symm)
      have trailed : behind ≠ [] := by
        rintro rfl
        refine same ((bareForm digits first last).trans ?_)
        rw [List.append_nil]
        exact (quotedForm digits first last).symm
      have bad := plain.resolve_left trailed
      intro State join accepted t reads more delivered deliveredToo
      rw [putHands t delivered shortBare noNul ((bareForm digits first last).trans (if_neg nonempty)),
        putHands t deliveredToo short noNulQuoted ((quotedForm digits first last).trans (if_neg nonempty))]
      have badBare : ¬IsDatasetHex (text ++ behind) := trailedRejected last trailed
      have bare := answerRejected join accepted t badBare
      have inQuotes := answerRejected join accepted t bad
      exact ⟨bare.1.trans inQuotes.1.symm,iff_of_false bare.2 inQuotes.2⟩

/- The two spellings are one exactly when no white space follows the digits, or there are
none. What becomes of them differs where the digits are a dataset's. -/
theorem formsEquivalent (digits : ∀ c ∈ text, isDigit c = true) (first : Spaces before)
    (last : Spaces behind) (short : (before ++ quoted text ++ behind).length < bodySize) :
    (Equivalent (before ++ text ++ behind) (before ++ quoted text ++ behind) ↔
      behind = [] ∨ text = []) ∧
    (SameFate (before ++ text ++ behind) (before ++ quoted text ++ behind) ↔
      behind = [] ∨ ¬IsDatasetHex text) := by
  have fate := sameFateExact digits first last short
  refine ⟨⟨fun same => ?_,fun plain => ⟨?_,fate.mpr ?_⟩⟩,fate⟩
  · have handed := same.handed
    rw [bareForm digits first last, quotedForm digits first last] at handed
    by_cases nothing : text = []
    · exact .inr nothing
    · rw [if_neg nothing, if_neg nothing] at handed
      exact .inl (List.append_right_eq_self.mp (Option.some.inj handed))
  · rw [bareForm digits first last, quotedForm digits first last]
    rcases plain with rfl | rfl
    · rw [List.append_nil]
    · rfl
  · rcases plain with trailed | rfl
    · exact .inl trailed
    · exact .inr fun good => good.1 rfl

theorem formsEquivalentZero :
    Equivalent ([0x20] ++ [0x30,0x61] ++ []) ([0x20] ++ quoted [0x30,0x61] ++ []) :=
  (formsEquivalent (List.all_eq_true.mp (by decide : ([0x30,0x61] : List UInt8).all isDigit = true))
    (by decide : Spaces [0x20]) (by decide : Spaces []) (by decide)).1.mpr (.inl rfl)

/- The same digits with a newline behind them: taken in quotes, turned away bare. -/
theorem newlineDiffers : ¬∀ text before behind : List UInt8, (∀ c ∈ text, isDigit c = true) →
    Spaces before → Spaces behind → (before ++ quoted text ++ behind).length < bodySize →
    Equivalent (before ++ text ++ behind) (before ++ quoted text ++ behind) := by
  intro all
  have digits : ∀ c ∈ ([0x30,0x61] : List UInt8), isDigit c = true := List.all_eq_true.mp (by decide)
  have same := all [0x30,0x61] [] [0x0a] digits (by decide) (by decide) (by decide)
  exact trailedDiffers ⟨by decide,by decide,by decide,digits⟩ (by decide) (by decide) (by decide) (by decide)
    same.fate

end EpskcCommissioner.DatasetForms

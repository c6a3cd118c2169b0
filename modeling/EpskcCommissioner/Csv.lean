import Mathlib.Data.List.Basic

/-! CSV in the dialect that spreadsheets write: fields between commas, quoted where they must
be, records ended by a carriage return and a newline. The reader takes what the writer wrote
back to the fields, whatever characters they have. -/
namespace EpskcCommissioner.Csv

def doubled (c : Char) : List Char := if c = '"' then ['"','"'] else [c]

def isSpecial (c : Char) : Bool := c == ',' || c == '"' || c == '\r' || c == '\n'

def fieldText (field : List Char) : List Char :=
  if field.any isSpecial then '"' :: (field.flatMap doubled ++ ['"']) else field

/- A record that is one empty field is quoted, so that it is no empty line. -/
def recordText : List (List Char) → List Char
  | [[]] => ['"','"','\r','\n']
  | fields => [','].intercalate (fields.map fieldText) ++ ['\r','\n']

inductive State where
  | startRecord
  | startField
  | inField
  | inQuoted
  | quoteInQuoted
  | afterReturn
  deriving DecidableEq, Repr

def ended (c : Char) : State := if c = '\r' then .afterReturn else .startRecord

/- `field` is what the reader has of the field it is in, `fields` those before it. A field
that is still quoted at the end of the text ends there. -/
def read : State → (field : List Char) → (fields : List (List Char)) → List Char →
    List (List (List Char))
  | .startRecord, _, _, [] | .afterReturn, _, _, [] => []
  | .startField, _, fields, [] => [fields ++ [[]]]
  | .inField, field, fields, [] | .inQuoted, field, fields, [] | .quoteInQuoted, field, fields, [] =>
    [fields ++ [field]]
  | .inQuoted, field, fields, c :: cs =>
    if c = '"' then read .quoteInQuoted field fields cs else read .inQuoted (field ++ [c]) fields cs
  | .quoteInQuoted, field, fields, c :: cs =>
    if c = '"' then read .inQuoted (field ++ [c]) fields cs
    else if c = ',' then read .startField [] (fields ++ [field]) cs
    else if c = '\r' ∨ c = '\n' then (fields ++ [field]) :: read (ended c) [] [] cs
    else read .inField (field ++ [c]) fields cs
  | .inField, field, fields, c :: cs =>
    if c = ',' then read .startField [] (fields ++ [field]) cs
    else if c = '\r' ∨ c = '\n' then (fields ++ [field]) :: read (ended c) [] [] cs
    else read .inField (field ++ [c]) fields cs
  | .startField, _, fields, c :: cs =>
    if c = ',' then read .startField [] (fields ++ [[]]) cs
    else if c = '\r' ∨ c = '\n' then (fields ++ [[]]) :: read (ended c) [] [] cs
    else if c = '"' then read .inQuoted [] fields cs
    else read .inField [c] fields cs
  | .startRecord, _, _, c :: cs =>
    if c = ',' then read .startField [] [[]] cs
    else if c = '\r' ∨ c = '\n' then [] :: read (ended c) [] [] cs
    else if c = '"' then read .inQuoted [] [] cs
    else read .inField [c] [] cs
  | .afterReturn, _, _, c :: cs =>
    if c = '\n' then read .startRecord [] [] cs
    else if c = ',' then read .startField [] [[]] cs
    else if c = '\r' then [] :: read .afterReturn [] [] cs
    else if c = '"' then read .inQuoted [] [] cs
    else read .inField [c] [] cs

def records (text : List Char) : List (List (List Char)) := read .startRecord [] [] text

/- What a field leads to when `c` follows it. -/
def next (fields : List (List Char)) (c : Char) (cs : List Char) : List (List (List Char)) :=
  if c = ',' then read .startField [] fields cs else fields :: read (ended c) [] [] cs

theorem notSpecial {c : Char} (plain : isSpecial c = false) :
    c ≠ ',' ∧ c ≠ '"' ∧ ¬ (c = '\r' ∨ c = '\n') := by
  simp only [isSpecial,Bool.or_eq_false_iff,beq_eq_false_iff_ne] at plain
  exact ⟨plain.1.1.1,plain.1.1.2,fun line => line.elim plain.1.2 plain.2⟩

theorem readPlain {tail : List Char} (plain : ∀ c ∈ tail, isSpecial c = false) {c : Char}
    (stop : c = ',' ∨ c = '\r') (field : List Char) (fields : List (List Char)) (cs : List Char) :
    read .inField field fields (tail ++ c :: cs) = next (fields ++ [field ++ tail]) c cs := by
  induction tail generalizing field with
  | nil =>
    rw [List.append_nil, List.nil_append, read, next]
    rcases stop with rfl | rfl <;> rfl
  | cons d tail ih =>
    obtain ⟨here,later⟩ := List.forall_mem_cons.mp plain
    obtain ⟨comma,_,line⟩ := notSpecial here
    rw [List.cons_append, read, if_neg comma, if_neg line, ih later, List.append_assoc]
    rfl

theorem readQuoted (tail : List Char) {c : Char} (stop : c = ',' ∨ c = '\r') (field : List Char)
    (fields : List (List Char)) (cs : List Char) :
    read .inQuoted field fields (tail.flatMap doubled ++ '"' :: c :: cs) =
      next (fields ++ [field ++ tail]) c cs := by
  induction tail generalizing field with
  | nil =>
    rw [List.append_nil, List.flatMap_nil, List.nil_append, read, if_pos rfl, read, next]
    rcases stop with rfl | rfl <;> rfl
  | cons d tail ih =>
    have more : field ++ d :: tail = field ++ [d] ++ tail := by simp
    rw [List.flatMap_cons, List.append_assoc, more, ← ih, doubled]
    split
    · rename_i quote
      rw [quote, List.cons_append, List.cons_append, List.nil_append, read, if_pos rfl, read,
        if_pos rfl]
    · rename_i other
      rw [List.singleton_append, read, if_neg other]

theorem readField (field : List Char) {c : Char} (stop : c = ',' ∨ c = '\r')
    (fields : List (List Char)) (cs : List Char) :
    read .startField [] fields (fieldText field ++ c :: cs) = next (fields ++ [field]) c cs := by
  unfold fieldText
  split
  · have whole : '"' :: (field.flatMap doubled ++ ['"']) ++ c :: cs =
        '"' :: (field.flatMap doubled ++ '"' :: c :: cs) := by simp
    rw [whole, read, if_neg (by decide), if_neg (by decide), if_pos rfl, readQuoted field stop]
    rfl
  · rename_i plain
    have none : ∀ d ∈ field, isSpecial d = false := by simpa using plain
    cases field with
    | nil =>
      rw [List.nil_append, read, next]
      rcases stop with rfl | rfl <;> rfl
    | cons d tail =>
      obtain ⟨here,later⟩ := List.forall_mem_cons.mp none
      obtain ⟨comma,quote,line⟩ := notSpecial here
      rw [List.cons_append, read, if_neg comma, if_neg line, if_neg quote, readPlain later stop]
      rfl

theorem readFields (field : List Char) (rest before : List (List Char)) (cs : List Char) :
    read .startField [] before ([','].intercalate ((field :: rest).map fieldText) ++ '\r' :: '\n' :: cs) =
      (before ++ field :: rest) :: records cs := by
  induction rest generalizing field before with
  | nil =>
    rw [List.map_singleton, List.intercalate_singleton, readField field (.inr rfl)]
    rfl
  | cons other rest ih =>
    have more : before ++ field :: other :: rest = before ++ [field] ++ other :: rest := by simp
    rw [List.map_cons, List.intercalate_cons_of_ne_nil (by simp), List.append_assoc,
      List.append_assoc, List.singleton_append, readField field (.inl rfl), next, if_pos rfl, ih, more]

theorem startRecordField {c : Char} (line : ¬ (c = '\r' ∨ c = '\n')) (cs : List Char) :
    read .startRecord [] [] (c :: cs) = read .startField [] [] (c :: cs) := by
  rw [read, read, if_neg line, if_neg line]
  rfl

theorem fieldTextHead (field : List Char) : field = [] ∨
    ∃ c cs, fieldText field = c :: cs ∧ ¬ (c = '\r' ∨ c = '\n') := by
  cases field with
  | nil => exact .inl rfl
  | cons c cs =>
    right
    unfold fieldText
    split
    · exact ⟨'"',_,rfl,by decide⟩
    · rename_i plain
      have none : ∀ d ∈ c :: cs, isSpecial d = false := by simpa using plain
      exact ⟨c,cs,rfl,(notSpecial (none c List.mem_cons_self)).2.2⟩

theorem recordsCons {record : List (List Char)} (some : record ≠ []) (cs : List Char) :
    records (recordText record ++ cs) = record :: records cs := by
  unfold recordText
  split
  · rfl
  · rename_i other
    cases record with
    | nil => exact absurd rfl some
    | cons field rest =>
      have read := readFields field rest [] cs
      rw [List.nil_append] at read
      rw [List.append_assoc, ← read]
      cases rest with
      | nil =>
        rcases fieldTextHead field with rfl | ⟨c,tail,found,line⟩
        · exact absurd rfl (other)
        · rw [List.map_singleton, List.intercalate_singleton, found]
          exact startRecordField line _
      | cons second rest =>
        rw [List.map_cons, List.intercalate_cons_of_ne_nil (by simp)]
        rcases fieldTextHead field with rfl | ⟨c,tail,found,line⟩
        · exact startRecordField (by decide) _
        · rw [found]
          exact startRecordField line _

theorem recordsText {rows : List (List (List Char))} (some : ∀ row ∈ rows, row ≠ []) :
    records (rows.flatMap recordText) = rows := by
  induction rows with
  | nil => rfl
  | cons row rows ih =>
    obtain ⟨here,later⟩ := List.forall_mem_cons.mp some
    rw [List.flatMap_cons, recordsCons here, ih later]

theorem fieldTextMem {field : List Char} {c : Char} (mem : c ∈ fieldText field) : c = '"' ∨ c ∈ field := by
  unfold fieldText at mem
  split at mem
  · simp only [List.mem_cons,List.mem_append,List.mem_flatMap,List.not_mem_nil,or_false] at mem
    rcases mem with quote | ⟨d,inside,doubled⟩ | quote
    · exact .inl quote
    · unfold Csv.doubled at doubled
      split at doubled
      · exact .inl (by simpa using doubled)
      · exact .inr (List.mem_singleton.mp doubled ▸ inside)
    · exact .inl quote
  · exact .inr mem

theorem intercalateMem {ps : List (List Char)} {c : Char} (mem : c ∈ [','].intercalate ps) :
    c = ',' ∨ ∃ p ∈ ps, c ∈ p := by
  induction ps with
  | nil => exact absurd mem List.not_mem_nil
  | cons p ps ih =>
    cases ps with
    | nil =>
      rw [List.intercalate_singleton] at mem
      exact .inr ⟨p,List.mem_cons_self,mem⟩
    | cons q ps =>
      rw [List.intercalate_cons_of_ne_nil (List.cons_ne_nil q ps)] at mem
      simp only [List.append_assoc,List.mem_append,List.mem_singleton] at mem
      rcases mem with here | comma | later
      · exact .inr ⟨p,List.mem_cons_self,here⟩
      · exact .inl comma
      · exact (ih later).imp id (fun ⟨r,inside,found⟩ => ⟨r,List.mem_cons_of_mem _ inside,found⟩)

theorem recordLine {record : List (List Char)} (oneLine : ∀ field ∈ record, '\n' ∉ field) :
    ∃ body, recordText record = body ++ ['\n'] ∧ '\n' ∉ body := by
  unfold recordText
  split
  · exact ⟨['"','"','\r'],rfl,by decide⟩
  · refine ⟨[','].intercalate (record.map fieldText) ++ ['\r'],by simp,fun mem => ?_⟩
    rcases List.mem_append.mp mem with body | last
    · rcases intercalateMem body with comma | ⟨p,inside,found⟩
      · exact absurd comma (by decide)
      · obtain ⟨field,of,rfl⟩ := List.mem_map.mp inside
        exact (fieldTextMem found).elim (by decide) (oneLine field of)
    · exact absurd last (by decide)

theorem fieldTextLength (field : List Char) : (fieldText field).length ≤ 2 * field.length + 2 := by
  have double : ∀ cs : List Char, (cs.flatMap doubled).length ≤ 2 * cs.length := by
    intro cs
    induction cs with
    | nil => exact Nat.le_refl _
    | cons c cs ih =>
      have one : (doubled c).length ≤ 2 := by
        unfold doubled
        split
        · exact Nat.le_refl _
        · exact Nat.le_succ _
      rw [List.flatMap_cons, List.length_append, List.length_cons]
      omega
  have := double field
  unfold fieldText
  split
  · simp only [List.length_cons,List.length_append,List.length_nil]
    omega
  · omega

theorem intercalateLength {ps : List (List Char)} {k : Nat} (small : ∀ p ∈ ps, p.length ≤ k) :
    ([','].intercalate ps).length ≤ ps.length * (k + 1) := by
  induction ps with
  | nil => exact Nat.zero_le _
  | cons p ps ih =>
    obtain ⟨here,later⟩ := List.forall_mem_cons.mp small
    have rest := ih later
    rw [List.length_cons, Nat.add_mul]
    cases ps with
    | nil =>
      rw [List.intercalate_singleton]
      omega
    | cons q ps =>
      rw [List.intercalate_cons_of_ne_nil (List.cons_ne_nil q ps)]
      simp only [List.length_append,List.length_singleton]
      omega

theorem recordLength {record : List (List Char)} {k : Nat}
    (small : ∀ field ∈ record, field.length ≤ k) :
    (recordText record).length ≤ record.length * (2 * k + 3) + 2 := by
  unfold recordText
  split
  · simp only [List.length_cons,List.length_nil]
    omega
  · have fields : ∀ p ∈ record.map fieldText, p.length ≤ 2 * k + 2 := by
      intro p mem
      obtain ⟨field,inside,rfl⟩ := List.mem_map.mp mem
      have := fieldTextLength field
      have := small field inside
      omega
    have total := intercalateLength fields
    rw [List.length_map, show 2 * k + 2 + 1 = 2 * k + 3 from rfl] at total
    rw [List.length_append]
    exact Nat.add_le_add_right total 2

end EpskcCommissioner.Csv

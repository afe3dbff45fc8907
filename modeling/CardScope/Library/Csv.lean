import Mathlib

/-! # Comma-separated values

Records of fields as text: fields are separated by commas, records end with a line break, and a field
may stand in quotes, where quotes are doubled. A writer may quote any field; it has to quote those
that hold a comma, a quote or a line break.
-/

namespace CardScope.Library.Csv

def special (c : Char) : Bool := c == ',' || c == '"' || c == '\n' || c == '\r'

/-! ## Writing -/

def escape (field : List Char) : List Char :=
  field.flatMap (fun c => if c = '"' then ['"', '"'] else [c])

section Writing

variable (quoted : List Char → Bool)

def writeField (field : List Char) : List Char :=
  if quoted field then '"' :: escape field ++ ['"'] else field

def writeRecord : List (List Char) → List Char
  | [] => ['\n']
  | [field] => writeField quoted field ++ ['\n']
  | field :: fields => writeField quoted field ++ ',' :: writeRecord fields

def write (records : List (List (List Char))) : List Char := records.flatMap (writeRecord quoted)

end Writing

/-! ## Reading -/

/-- Where the reader stands: before a field, in it, between its quotes, behind a quote that ends the
field unless another one follows, or behind a carriage return. -/
inductive Place where
  | start
  | plain
  | quoted
  | closed
  | returned
deriving DecidableEq

/-- Read on, with what was read of the field and of the record. -/
def readFrom (place : Place) (field : List Char) (record : List (List Char)) :
    List Char → Option (List (List (List Char)))
  | [] =>
    if place = .start ∧ record = [] then some []
    else if place = .quoted ∨ place = .returned then none
    else some [record ++ [field]]
  | c :: text =>
    if place = .quoted then
      if c = '"' then readFrom .closed field record text
      else readFrom .quoted (field ++ [c]) record text
    else if c = '\n' then (readFrom .start [] [] text).map ((record ++ [field]) :: ·)
    else if place = .returned then none
    else if c = '\r' then readFrom .returned field record text
    else if c = ',' then readFrom .start [] (record ++ [field]) text
    else if c = '"' then
      if place = .start then readFrom .quoted field record text
      else if place = .closed then readFrom .quoted (field ++ ['"']) record text
      else none
    else if place = .closed then none
    else readFrom .plain (field ++ [c]) record text

/-- The records of a text. -/
def read (text : List Char) : Option (List (List (List Char))) := readFrom .start [] [] text

/-! ## What is written is read -/

variable {place : Place} {field s text : List Char} {record fields : List (List Char)}
  {quoted : List Char → Bool}

theorem special_eq_false {c : Char} :
    special c = false ↔ c ≠ ',' ∧ c ≠ '"' ∧ c ≠ '\n' ∧ c ≠ '\r' := by
  simp [special, and_assoc]

theorem readFrom_comma (h : place = .start ∨ place = .plain ∨ place = .closed) :
    readFrom place field record (',' :: text) = readFrom .start [] (record ++ [field]) text := by
  rcases h with rfl | rfl | rfl <;> rfl

theorem readFrom_newline (h : place = .start ∨ place = .plain ∨ place = .closed) :
    readFrom place field record ('\n' :: text) = (read text).map ((record ++ [field]) :: ·) := by
  rcases h with rfl | rfl | rfl <;> rfl

theorem readFrom_plain (hs : ∀ c ∈ s, special c = false) :
    readFrom .plain field record (s ++ text) = readFrom .plain (field ++ s) record text := by
  induction s generalizing field with
  | nil => simp
  | cons c s ih =>
    obtain ⟨hcomma, hquote, hnewline, hreturn⟩ := special_eq_false.mp (hs c List.mem_cons_self)
    rw [List.cons_append, readFrom]
    simp only [hcomma, hquote, hnewline, hreturn, reduceCtorEq, if_false]
    rw [ih (fun d hd => hs d (List.mem_cons_of_mem c hd)), List.append_assoc, List.singleton_append]

theorem readFrom_escape : readFrom .quoted field record (escape s ++ text) =
    readFrom .quoted (field ++ s) record text := by
  induction s generalizing field with
  | nil => simp [escape]
  | cons c s ih =>
    have hcons : escape (c :: s) = (if c = '"' then ['"', '"'] else [c]) ++ escape s := rfl
    rw [hcons, List.append_assoc]
    have hstep : readFrom .quoted field record ((if c = '"' then ['"', '"'] else [c]) ++
        (escape s ++ text)) = readFrom .quoted (field ++ [c]) record (escape s ++ text) := by
      by_cases hc : c = '"'
      · subst hc
        rfl
      · simp [hc, readFrom]
    rw [hstep, ih, List.append_assoc, List.singleton_append]

theorem readFrom_writeField (record : List (List Char)) (text : List Char)
    (hs : quoted s = false → ∀ c ∈ s, special c = false) :
    ∃ place, (place = .start ∨ place = .plain ∨ place = .closed) ∧
      readFrom .start [] record (writeField quoted s ++ text) = readFrom place s record text := by
  cases hq : quoted s with
  | true =>
    refine ⟨.closed, by simp, ?_⟩
    have hopen : readFrom .start [] record ('"' :: (escape s ++ '"' :: text)) =
        readFrom .quoted [] record (escape s ++ '"' :: text) := rfl
    simp only [writeField, hq, if_true, List.cons_append, List.append_assoc]
    rw [List.nil_append, hopen, readFrom_escape]
    rfl
  | false =>
    simp only [writeField, hq, Bool.false_eq_true, if_false]
    cases s with
    | nil => exact ⟨.start, by simp, rfl⟩
    | cons c s =>
      have hplain := hs hq
      obtain ⟨hcomma, hquote, hnewline, hreturn⟩ := special_eq_false.mp (hplain c List.mem_cons_self)
      refine ⟨.plain, by simp, ?_⟩
      rw [List.cons_append, readFrom]
      simp only [hcomma, hquote, hnewline, hreturn, reduceCtorEq, if_false]
      exact readFrom_plain (fun d hd => hplain d (List.mem_cons_of_mem c hd))

theorem readFrom_writeRecord
    (hfields : ∀ s ∈ fields, quoted s = false → ∀ c ∈ s, special c = false) (hne : fields ≠ []) :
    readFrom .start [] record (writeRecord quoted fields ++ text) =
      (read text).map ((record ++ fields) :: ·) := by
  induction fields generalizing record with
  | nil => exact absurd rfl hne
  | cons s fields ih =>
    have hs := hfields s List.mem_cons_self
    cases fields with
    | nil =>
      obtain ⟨place, hplace, hread⟩ := readFrom_writeField record ('\n' :: text) hs
      rw [writeRecord, List.append_assoc, List.singleton_append, hread, readFrom_newline hplace]
    | cons s' fields =>
      obtain ⟨place, hplace, hread⟩ := readFrom_writeField record
        (',' :: (writeRecord quoted (s' :: fields) ++ text)) hs
      have hrest : readFrom .start [] (record ++ [s]) (writeRecord quoted (s' :: fields) ++ text) =
          (read text).map ((record ++ [s] ++ s' :: fields) :: ·) :=
        ih (fun x hx => hfields x (List.mem_cons_of_mem s hx)) (List.cons_ne_nil s' fields)
      rw [writeRecord, List.append_assoc, List.cons_append, hread, readFrom_comma hplace, hrest,
        List.append_assoc, List.singleton_append]
      exact fun h => by cases h

/-- A writer that quotes what has to be quoted is read back. -/
theorem read_write (hquoted : ∀ s, quoted s = false → ∀ c ∈ s, special c = false)
    {records : List (List (List Char))} (hne : ∀ record ∈ records, record ≠ []) :
    read (write quoted records) = some records := by
  induction records with
  | nil => rfl
  | cons record records ih =>
    have hrest := ih (fun r hr => hne r (List.mem_cons_of_mem record hr))
    have hcons : write quoted (record :: records) =
        writeRecord quoted record ++ write quoted records := rfl
    rw [hcons, read, readFrom_writeRecord (fun s _ => hquoted s) (hne record List.mem_cons_self),
      hrest]
    rfl

end CardScope.Library.Csv

import CardScope.Access.Failures
import CardScope.Library.Csv

/-! # Exported files

The file of an export is read back: it holds the rows of the page with the same filters, whatever
nodes, cards and users are called, and no text in it is taken for a formula.
-/

namespace CardScope.CardHours
open Library Model Hub Hub.Api Access

/-- The writer quotes what it has to, and what begins with a blank or might end the data. -/
def fieldNeedsQuotes (field : List Char) : Bool :=
  field.any Csv.special || field == ['\\', '.'] || field.head?.any isSpace

def exportText (lines : List (List String)) : List Char :=
  '\uFEFF' :: Csv.write fieldNeedsQuotes (lines.map (List.map String.toList))

def readExport (text : List Char) : Option (List (List String)) :=
  match text with
  | '\uFEFF' :: records => (Csv.read records).map (List.map (List.map String.ofList))
  | _ => none

theorem special_of_unquoted {field : List Char} (h : fieldNeedsQuotes field = false) :
    ∀ c ∈ field, Csv.special c = false := by
  simp only [fieldNeedsQuotes, Bool.or_eq_false_iff, List.any_eq_false] at h
  exact fun c hc => by simpa using h.1.1 c hc

theorem readExport_exportText {lines : List (List String)} (hne : ∀ line ∈ lines, line ≠ []) :
    readExport (exportText lines) = some lines := by
  have hrecords : ∀ record ∈ lines.map (List.map String.toList), record ≠ [] := by
    intro record hrecord
    obtain ⟨line, hline, rfl⟩ := List.mem_map.mp hrecord
    simpa using hne line hline
  have hread := Csv.read_write (fun _ => special_of_unquoted) hrecords
  have htext : (List.map String.ofList ∘ List.map String.toList : List String → List String) = id := by
    funext line
    simp [Function.comp_def]
  simp only [readExport, exportText, hread, Option.map_some, List.map_map]
  rw [htext, List.map_id]

/-! ## Texts -/

/-- A spreadsheet takes the cell for a formula: it begins, after blanks, with one of its marks, or
with a control character. -/
def Formula (cell : String) : Prop :=
  (∃ c ∈ (cell.toList.dropWhile (· ∈ [' ', '\t', '\r', '\n'])).head?, c ∈ ['=', '+', '-', '@']) ∨
    ∃ c ∈ cell.toList.head?, c ∈ ['\t', '\r']

theorem not_formula_safeCSV (s : String) : ¬ Formula (safeCSV s) := by
  unfold safeCSV
  simp only
  split
  · have hlist : ("'" ++ s).toList = '\'' :: s.toList := by simp
    rintro (⟨c, hc, hmark⟩ | ⟨c, hc, hcontrol⟩)
    · rw [hlist] at hc
      obtain rfl : '\'' = c := by simpa using hc
      exact absurd hmark (by decide)
    · rw [hlist] at hc
      obtain rfl : '\'' = c := by simpa using hc
      exact absurd hcontrol (by decide)
  · rename_i hplain
    rw [Bool.or_eq_true, not_or] at hplain
    rintro (⟨c, hc, hmark⟩ | ⟨c, hc, hcontrol⟩)
    · exact hplain.1 ((Option.any_eq_true _ _).mpr ⟨c, hc, by simpa using hmark⟩)
    · exact hplain.2 ((Option.any_eq_true _ _).mpr ⟨c, hc, by simpa using hcontrol⟩)

/-! ## Lines -/

variable {p : Platform} {d : Draw} {h : HubState} {r : Request}

def pageOf (r : Request) : Request := { r with path := "/api/v1/stats" }

theorem api_pageOf {u : User} (get : r.method = "GET")
    (known : session p d.now h.db r.cookie = some u) :
    (api p d h (pageOf r)).1 = stats p d h r false := by
  have hroute : trimPrefix "/api/v1/stats" "/api/v1" = "/stats" := by decide +kernel
  have hget : (pageOf r).method = "GET" := get
  have hknown : session p d.now h.db (pageOf r).cookie = some u := known
  have hpath : (pageOf r).path = "/api/v1/stats" := rfl
  simp [api, pages, hpath, hroute, hget, hknown]
  rfl

theorem stats_of_file {filename : String} {lines : List (List String)}
    (hfile : (api p d h r).1.body = .csv filename lines) :
    (stats p d h r true).body = .csv filename lines ∧
      (api p d h (pageOf r)).1 = stats p d h r false := by
  have hhandled := api_handled p d h r
  generalize api p d h r = x at hhandled hfile
  cases hhandled with
  | refused below kept => cases hfile
  | page page =>
    cases hfile
    cases page
  | file get path known => exact ⟨hfile, api_pageOf get known⟩
  | sessionTaken path taken kept => cases hfile
  | nodeTaken path taken => cases hfile
  | unsalted path decoded failed => cases hfile
  | lost path registered failed internal kept => cases hfile
  | opened decoded found right inserted => cases hfile
  | closed => cases hfile
  | copied v => cases hfile
  | changed path decoded salt => cases hfile
  | served q ok plain elsewhere done =>
    cases hfile
    simp [isPage] at plain

theorem length_userLine {range : Range} {users : List UserStat} :
    ∀ line ∈ userHeader :: users.map (UserStat.line p range), line.length = 8 := by
  intro line hline
  rcases List.mem_cons.mp hline with rfl | hline
  · rfl
  · obtain ⟨u, -, rfl⟩ := List.mem_map.mp hline
    rfl

theorem length_statLine {range : Range} {rows : List StatRow} :
    ∀ line ∈ statHeader :: rows.map (StatRow.line p range), line.length = 11 := by
  intro line hline
  rcases List.mem_cons.mp hline with rfl | hline
  · rfl
  · obtain ⟨s, -, rfl⟩ := List.mem_map.mp hline
    rfl

/-- What is read from the file of an export is the page of the same request, line by line, and no
text in it is a formula. -/
theorem export_read (p : Platform) (d : Draw) (h : HubState) (r : Request) (filename : String)
    (lines : List (List String)) (hfile : (api p d h r).1.body = .csv filename lines) :
    readExport (exportText lines) = some lines ∧
    ((∃ range users gaps, (api p d h (pageOf r)).1.body = .users range users gaps ∧
        lines = userHeader :: users.map (UserStat.line p range) ∧
        ∀ line ∈ lines.tail, ∀ cell ∈ line.take 3, ¬ Formula cell) ∨
      ∃ range rows, (api p d h (pageOf r)).1.body = .stats range rows ∧
        lines = statHeader :: rows.map (StatRow.line p range) ∧
        ∀ line ∈ lines.tail, ∀ cell ∈ line.take 5, ¬ Formula cell) := by
  obtain ⟨hbody, hpage⟩ := stats_of_file hfile
  by_cases hview : r.query "view" = "users"
  · simp only [stats, hview, if_true, respond, Body.csv.injEq] at hbody
    obtain ⟨-, rfl⟩ := hbody
    refine ⟨readExport_exportText fun line hline => ?_, .inl ⟨queryRange d.now r, _,
      incomplete (parents (statRows d.now h.db (queryRange d.now r) (r.query "node")
        (r.query "model"))), ?_, rfl, ?_⟩⟩
    · exact List.ne_nil_of_length_pos (by simp [length_userLine line hline])
    · rw [hpage]
      simp [stats, hview, respond]
    · intro line hline cell hcell
      obtain ⟨u, -, rfl⟩ := List.mem_map.mp hline
      simp only [UserStat.line, List.take_succ_cons, List.take_zero, List.mem_cons,
        List.not_mem_nil, or_false] at hcell
      rcases hcell with rfl | rfl | rfl <;> exact not_formula_safeCSV _
  · simp only [stats, hview, if_true, if_false, respond, Body.csv.injEq] at hbody
    obtain ⟨-, rfl⟩ := hbody
    refine ⟨readExport_exportText fun line hline => ?_, .inr ⟨queryRange d.now r, _, ?_, rfl, ?_⟩⟩
    · exact List.ne_nil_of_length_pos (by simp [length_statLine line hline])
    · rw [hpage]
      simp [stats, hview, respond]
    · intro line hline cell hcell
      obtain ⟨s, -, rfl⟩ := List.mem_map.mp hline
      simp only [StatRow.line, List.take_succ_cons, List.take_zero, List.mem_cons,
        List.not_mem_nil, or_false] at hcell
      rcases hcell with rfl | rfl | rfl | rfl | rfl <;> exact not_formula_safeCSV _

/-- A hub that an administrator is signed in to, with one card of an awkward name. -/
def signedInHub : HubState where
  db := {
    freshStore Table.empty with
    accounts := Table.empty.put ⟨"admin", "", "admin"⟩
    sessions := Table.empty.put
      ⟨"a0fab1377f49a759b57f63318262ebe89fabfc990e8e93ceac2984561482b9d4", "admin", "",
        1700043200000⟩
    gpus := Table.empty.put {
      node := "n1"
      uuid := "GPU-8c2f"
      name := "=A100, \"80GB\""
      firstSeen := 1699990000000
      lastSeen := 1699990000000 } }
  rates := Table.empty

def exportRequest : Request where
  method := "GET"
  path := "/api/v1/export"
  cookie := some (String.ofList (List.replicate 64 'b'))
  query := fun key =>
    if key = "from" then "1699992000000" else if key = "to" then "1699995600000" else ""

/-- A platform that prints zero with the digits asked for. -/
def printing : Platform :=
  { hashing with
    fixed := fun width q =>
      if q = 0 then "0." ++ String.ofList (List.replicate width '0') else toString q }

def exportDraw : Draw := ⟨1700000000000, .replicate '8', .replicate '9', fun _ => none⟩

/-- A name with a comma, quotes and the mark of a formula. -/
theorem export_read_quoted : ∃ lines,
    (api printing exportDraw signedInHub exportRequest).1.body = .csv "gpu-hours.csv" lines ∧
      readExport (exportText lines) = some lines ∧
      ∃ line ∈ lines, "'=A100, \"80GB\"" ∈ line := by
  have hfile : (api printing exportDraw signedInHub exportRequest).1.body =
      .csv "gpu-hours.csv" [statHeader, ["n1", "GPU-8c2f", "'=A100, \"80GB\"", "", "", "0.000000",
        "0.000000", "0.0000", "0.0000", "1699992000000", "1699995600000"]] := by
    decide +kernel
  exact ⟨_, hfile, (export_read printing exportDraw signedInHub exportRequest _ _ hfile).1, by simp⟩

end CardScope.CardHours

import CardScope.Access.NodeNames
import CardScope.Hub.Queries

/-! # The tags of a settings form

The settings form of a node keeps its own list of tags until it is saved. It cuts other white space
than the hub, and it checks what is typed before it is sent. In what it sends the hub finds nothing
to refuse and nothing to change.
-/

namespace CardScope.Web.Tags
open Library Hub Access

/-! ## The form -/

def isBlank (c : Char) : Bool :=
  c.val ∈ [0x09, 0x0A, 0x0B, 0x0C, 0x0D, 0x20, 0xA0, 0x1680, 0x2028, 0x2029, 0x202F, 0x205F, 0x3000,
    0xFEFF] || (0x2000 ≤ c.val && c.val ≤ 0x200A)

/-- The one character that only the hub trims. -/
def nextLine : Char := Char.ofNat 0x85

def trim (s : String) : String :=
  String.ofList ((s.toList.dropWhile isBlank).rdropWhile isBlank)

def hasControl (value : String) : Bool :=
  value.toList.any (fun c => c.val ≤ 0x1F || (0x7F ≤ c.val && c.val ≤ 0x9F))

/-- The values of a new set, in the order in which they are added. -/
def newSet (values : List String) : List String :=
  values.foldl (fun set v => if v ∈ set then set else set ++ [v]) []

/-- What the form remembers about tags. -/
structure Form where
  tags : List String
  tagInput : String := ""
  tagError : String := ""
deriving DecidableEq

def opened (n : NodeView) : Form := { tags := n.tags }

def Form.next (f : Form) : List String :=
  if trim f.tagInput ≠ "" then newSet (f.tags ++ [trim f.tagInput]) else f.tags

/-- Take over what is typed, or say why not. -/
def collectTags (f : Form) : Form × Option (List String) :=
  let value := trim f.tagInput
  if value ≠ "" ∧ (value.length > 32 ∨ hasControl value) then
    ({ f with tagError := "标签最多 32 个字符，不能包含控制字符" }, none)
  else if f.next.length > 20 then ({ f with tagError := "每个节点最多 20 个标签" }, none)
  else ({ tags := f.next, tagInput := "", tagError := "" }, some f.next)

inductive Edit where
  | input (text : String)
  | collect
  | remove (tag : String)

def edit (f : Form) : Edit → Form
  | .input text => { f with tagInput := text, tagError := "" }
  | .collect => (collectTags f).1
  | .remove tag => { f with tags := f.tags.filter (fun value => value ≠ tag) }

def edited (f : Form) (edits : List Edit) : Form := edits.foldl edit f

/-! ## Two notions of white space -/

theorem isBlank_of_isSpace {c : Char} (hspace : isSpace c = true) (hne : c ≠ nextLine) :
    isBlank c = true := by
  have hval : c.val ≠ 0x85 := fun h => hne (Char.ext h)
  simp only [isSpace, isBlank, Bool.or_eq_true, decide_eq_true_eq, List.mem_cons,
    List.not_mem_nil, or_false] at hspace ⊢
  tauto

/-- What the form has trimmed the hub leaves as it is. -/
theorem trimSpace_trim {s : String} (hnext : nextLine ∉ (trim s).toList) :
    trimSpace (trim s) = trim s := by
  have hdrop : (trim s).toList.dropWhile isBlank = (trim s).toList := by
    rw [trim, String.toList_ofList, dropWhile_rdropWhile]
  have hrdrop : (trim s).toList.rdropWhile isBlank = (trim s).toList := by
    rw [trim, String.toList_ofList, List.rdropWhile_idempotent]
  have hspace : ∀ c ∈ (trim s).toList, ¬ isBlank c = true → ¬ isSpace c = true := by
    intro c hc hblank hs
    exact hblank (isBlank_of_isSpace hs (fun heq => hnext (heq ▸ hc)))
  rw [List.dropWhile_eq_self_iff] at hdrop
  rw [List.rdropWhile_eq_self_iff] at hrdrop
  have hstart : (trim s).toList.dropWhile isSpace = (trim s).toList := by
    rw [List.dropWhile_eq_self_iff]
    exact fun hl => hspace _ (List.getElem_mem hl) (hdrop hl)
  have hend : (trim s).toList.rdropWhile isSpace = (trim s).toList := by
    rw [List.rdropWhile_eq_self_iff]
    exact fun hl => hspace _ (List.getLast_mem hl) (hrdrop hl)
  rw [trimSpace_eq, hstart, hend, String.ofList_toList]

theorem hasControl_eq (value : String) : hasControl value = value.toList.any isControl := rfl

theorem not_mem_of_hasControl {value : String} (h : hasControl value = false) :
    nextLine ∉ value.toList := by
  intro hmem
  rw [hasControl_eq, List.any_eq_false] at h
  exact h _ hmem (by decide)

theorem validTag_trim {s : String} (hne : trim s ≠ "") (hlength : (trim s).length ≤ 32)
    (hcontrol : hasControl (trim s) = false) : ValidTag (trim s) := by
  rw [validTag_iff (trimSpace_trim (not_mem_of_hasControl hcontrol)), ← hasControl_eq]
  simp [hne, hlength, hcontrol]

/-! ## The tags of the form -/

theorem newSet_concat (values : List String) (v : String) :
    newSet (values ++ [v]) = if v ∈ newSet values then newSet values else newSet values ++ [v] := by
  rw [newSet, List.foldl_append]
  rfl

theorem newSet_of_nodup {values : List String} (h : values.Nodup) : newSet values = values := by
  induction values using List.reverseRecOn with
  | nil => rfl
  | append_singleton values v ih =>
    obtain ⟨hnodup, -, hdisjoint⟩ := List.nodup_append.mp h
    have hv : v ∉ values := fun hmem => hdisjoint v hmem v (List.mem_singleton_self v) rfl
    rw [newSet_concat, ih hnodup, if_neg hv]

theorem Form.next_eq {f : Form} (h : f.tags.Nodup) :
    f.next = if trim f.tagInput = "" ∨ trim f.tagInput ∈ f.tags then f.tags
      else f.tags ++ [trim f.tagInput] := by
  unfold Form.next
  by_cases hempty : trim f.tagInput = ""
  · simp [hempty]
  · rw [if_pos hempty, newSet_concat, newSet_of_nodup h]
    simp only [hempty, false_or]

theorem Form.nodup_next {f : Form} (h : f.tags.Nodup) : f.next.Nodup := by
  rw [Form.next_eq h]
  split_ifs with hold
  · exact h
  · rw [not_or] at hold
    simpa using h.concat hold.2

theorem Form.mem_next {f : Form} (h : f.tags.Nodup) {tag : String} :
    tag ∈ f.next ↔ tag ∈ f.tags ∨ tag = trim f.tagInput ∧ tag ≠ "" := by
  rw [Form.next_eq h]
  split_ifs with hold
  · refine ⟨.inl, fun hmem => hmem.elim id ?_⟩
    rintro ⟨rfl, hne⟩
    exact hold.resolve_left hne
  · rw [not_or] at hold
    rw [List.mem_append, List.mem_singleton]
    exact or_congr_right ⟨fun heq => ⟨heq, heq ▸ hold.1⟩, And.left⟩

theorem collectTags_eq_some {f : Form} {next : List String} (h : (collectTags f).2 = some next) :
    next = f.next ∧ (collectTags f).1.tags = f.next ∧ f.next.length ≤ 20 ∧
      (trim f.tagInput ≠ "" →
        (trim f.tagInput).length ≤ 32 ∧ hasControl (trim f.tagInput) = false) := by
  unfold collectTags at h ⊢
  simp only at h ⊢
  split_ifs at h ⊢ with hbad hmany
  cases h
  refine ⟨rfl, rfl, not_lt.mp hmany, fun hne => ?_⟩
  simpa [hne] using hbad

theorem collectTags_eq_none {f : Form} (h : (collectTags f).2 = none) :
    (collectTags f).1.tags = f.tags ∧ (20 < f.next.length ∨ trim f.tagInput ≠ "" ∧
      (32 < (trim f.tagInput).length ∨ hasControl (trim f.tagInput) = true)) := by
  unfold collectTags at h ⊢
  simp only at h ⊢
  split_ifs at h ⊢ with hbad hmany
  · exact ⟨rfl, .inr hbad⟩
  · exact ⟨rfl, .inl hmany⟩

theorem validTags_collected {f : Form} (hvalid : ValidTags f.tags) {next : List String}
    (h : (collectTags f).2 = some next) : ValidTags next := by
  obtain ⟨rfl, -, hlength, hchecked⟩ := collectTags_eq_some h
  refine ⟨hlength, Form.nodup_next hvalid.2.1, fun tag hmem => ?_⟩
  rcases (Form.mem_next hvalid.2.1).mp hmem with hold | ⟨rfl, hne⟩
  · exact hvalid.2.2 tag hold
  · obtain ⟨hshort, hcontrol⟩ := hchecked hne
    exact validTag_trim hne hshort hcontrol

theorem validTags_edit {f : Form} (hvalid : ValidTags f.tags) (e : Edit) :
    ValidTags (edit f e).tags := by
  cases e with
  | input text => exact hvalid
  | collect =>
    cases hcollected : (collectTags f).2 with
    | none =>
      rw [edit, (collectTags_eq_none hcollected).1]
      exact hvalid
    | some next =>
      have hnext := validTags_collected hvalid hcollected
      obtain ⟨rfl, htags, -⟩ := collectTags_eq_some hcollected
      rw [edit, htags]
      exact hnext
  | remove tag =>
    exact ⟨(List.length_filter_le _ _).trans hvalid.1, hvalid.2.1.filter _,
      fun t ht => hvalid.2.2 t (List.mem_of_mem_filter ht)⟩

theorem validTags_edited {f : Form} (hvalid : ValidTags f.tags) (edits : List Edit) :
    ValidTags (edited f edits).tags :=
  foldl_invariant edit (fun _ f => ValidTags f.tags) (fun e _ _ h => validTags_edit h e) edits f
    hvalid

/-! ## The tags of the hub -/

theorem cleanTags_of_valid {given kept : List String} (hvalid : ∀ tag ∈ given, ValidTag tag)
    (hnodup : (kept ++ given).Nodup) : cleanTags given kept = .ok (kept ++ given) := by
  induction given generalizing kept with
  | nil => simp [cleanTags]
  | cons tag rest ih =>
    have htag := hvalid tag List.mem_cons_self
    have htrim : trimSpace tag = tag := htag.1
    have hgood := (validTag_iff htrim).mp htag
    have hnew : tag ∉ kept := fun hmem =>
      (List.nodup_append.mp hnodup).2.2 tag hmem tag List.mem_cons_self rfl
    simp only [cleanTags, htrim]
    rw [if_neg hgood, if_neg hnew, ih (fun t ht => hvalid t (List.mem_cons_of_mem tag ht))
      (by simpa using hnodup)]
    simp

theorem cleanTags_eq {tags : List String} (h : ValidTags tags) :
    cleanTags tags [] = .ok tags :=
  cleanTags_of_valid h.2.2 h.2.1

/-- Tags that are accepted are valid when they are trimmed. -/
theorem validTag_of_cleanTags {given kept tags : List String}
    (h : cleanTags given kept = .ok tags) : ∀ tag ∈ given, ValidTag (trimSpace tag) := by
  induction given generalizing kept with
  | nil => simp
  | cons tag rest ih =>
    simp only [cleanTags] at h
    split_ifs at h with hbad hseen
    all_goals
      have htag : ValidTag (trimSpace tag) := (validTag_iff (trimSpace_trimSpace tag)).mpr hbad
      exact List.forall_mem_cons.mpr ⟨htag, ih h⟩

section Answers

variable {p : Platform} {st : Store} {d : Draw} {id : String} {s : NodeSettings} {tags : List String}

theorem answer_execUpdate (st : Store) (id : String) (f : NodeRow → NodeRow)
    (hf : ∀ n, (f n).id = n.id) :
    (execUpdate st id f hf).1 = if st.nodes.HasKey id then .ok () else .error .notFound := by
  rw [execUpdate_eq, updateRow]
  split_ifs <;> rfl

theorem find?_execUpdate {f : NodeRow → NodeRow} {hf : ∀ n, (f n).id = n.id}
    (hok : (execUpdate st id f hf).1 = .ok ()) :
    ∃ n, (execUpdate st id f hf).2.nodes.find? id = some (f n) := by
  rw [answer_execUpdate] at hok
  split_ifs at hok with hkey
  obtain ⟨n, hn⟩ := Option.ne_none_iff_exists'.mp (fun h => Table.find?_eq_none_iff.mp h hkey)
  refine ⟨n, ?_⟩
  rw [execUpdate_eq, updateRow, if_pos hkey]
  simp only [answered]
  rw [Table.find?_modify, hn, Option.map_some, if_pos rfl]

/-- Valid tags change nothing in the answer of the hub. -/
theorem answer_of_validTags (p : Platform) (st : Store) (d : Draw) (id : String) (s : NodeSettings)
    (hvalid : ValidTags tags) :
    (nodeCall p st (d, .configure id { s with tags := some tags })).1 =
      (nodeCall p st (d, .configure id { s with tags := none })).1 := by
  have hlength : ¬ tags.length > 20 := not_lt.mpr hvalid.1
  have hnone : ¬ ([] : List String).length > 20 := by simp
  simp only [nodeCall, Option.getD_some, Option.getD_none, cleanTags_eq hvalid, if_neg hlength,
    if_neg hnone, cleanTags]
  split_ifs
  · rfl
  · rfl
  · rfl
  · exact (answer_execUpdate _ _ _ _).trans (answer_execUpdate _ _ _ _).symm

/-- An accepted configuration has at most twenty tags, and the row of the node has them cleaned. -/
theorem configured_tags
    (hok : (nodeCall p st (d, .configure id { s with tags := some tags })).1 = .ok ()) :
    tags.length ≤ 20 ∧ ∃ kept, cleanTags tags [] = .ok kept ∧
      ((nodeCall p st (d, .configure id { s with tags := some tags })).2.nodes.find? id).map
        NodeRow.tags = some kept := by
  simp only [nodeCall, Option.getD_some] at hok ⊢
  split_ifs at hok ⊢ with hbad htaken hnetworks hmany
  refine ⟨not_lt.mp hmany, ?_⟩
  cases hclean : cleanTags tags [] with
  | error e => simp [hclean] at hok
  | ok kept =>
    rw [hclean] at hok
    obtain ⟨n, hn⟩ := find?_execUpdate hok
    refine ⟨kept, rfl, ?_⟩
    simp only [hn, Option.map_some, NodeRow.configured, Option.isSome_some, if_true]

end Answers

/-- The body of a save, with the other fields of the form. -/
def saved (s : NodeSettings) (f : Form) : Option NodeSettings :=
  (collectTags f).2.map (fun next => { s with tags := some next })

/-- What the form refuses the hub would refuse, unless it trims a next line. -/
theorem refused_of_collectTags {p : Platform} {st : Store} {d : Draw} {id : String}
    {s : NodeSettings} {f : Form} (hnodup : f.tags.Nodup) (hnone : (collectTags f).2 = none)
    (hnext : nextLine ∉ (trim f.tagInput).toList) :
    (nodeCall p st (d, .configure id { s with tags := some f.next })).1 ≠ .ok () := by
  intro hok
  obtain ⟨hlength, kept, hclean, -⟩ := configured_tags hok
  rcases (collectTags_eq_none hnone).2 with hmany | ⟨hne, hbad⟩
  · omega
  · have hmem : trim f.tagInput ∈ f.next := (Form.mem_next hnodup).mpr (.inr ⟨rfl, hne⟩)
    have htrim : trimSpace (trim f.tagInput) = trim f.tagInput := trimSpace_trim hnext
    have htag := validTag_of_cleanTags hclean _ hmem
    rw [htrim, validTag_iff htrim, ← hasControl_eq] at htag
    exact htag (.inr hbad)

/-- A next line at the end of a tag is refused by the form only. -/
example : (collectTags { tags := [], tagInput := String.ofList ['a', nextLine] }).2 = none ∧
    cleanTags [String.ofList ['a', nextLine]] [] = .ok ["a"] := by decide +kernel

/-- Whatever is edited and whatever the hub does meanwhile, a save is answered as it would be
without tags, and an accepted one stores the tags that the form shows. -/
theorem saved_tags (p : Platform) (hsymm : ∀ a b, p.equalFold a b = p.equalFold b a) (st : Store)
    (hempty : st.nodes = Table.empty) (calls : List (Draw × NodeCall)) (now : ℤ) (n : NodeView)
    (hn : n ∈ Hub.nodes now (nodeCalls p st calls)) (edits : List Edit) (s : NodeSettings)
    (late : Store) (d : Draw) (id : String) :
    ValidTags (edited (opened n) edits).tags ∧
    (∀ body, saved s (edited (opened n) edits) = some body →
      (nodeCall p late (d, .configure id body)).1 =
        (nodeCall p late (d, .configure id { s with tags := none })).1 ∧
      ((nodeCall p late (d, .configure id body)).1 = .ok () →
        ((nodeCall p late (d, .configure id body)).2.nodes.find? id).map NodeRow.tags =
          some (collectTags (edited (opened n) edits)).1.tags)) ∧
    (saved s (edited (opened n) edits) = none →
      nextLine ∉ (trim (edited (opened n) edits).tagInput).toList →
      (nodeCall p late (d, .configure id
        { s with tags := some (edited (opened n) edits).next })).1 ≠ .ok ()) := by
  have hopened : ValidTags (opened n).tags := by
    simp only [Hub.nodes, List.mem_map, List.mem_insertionSort] at hn
    obtain ⟨row, hrow, rfl⟩ := hn
    exact ((named_nodeCalls hsymm hempty calls).valid row hrow).tags
  have hvalid := validTags_edited hopened edits
  generalize edited (opened n) edits = f at hvalid ⊢
  refine ⟨hvalid, fun body hbody => ?_, fun hnone hnext => ?_⟩
  · obtain ⟨next, hcollected, rfl⟩ := Option.map_eq_some_iff.mp hbody
    have hnext := validTags_collected hvalid hcollected
    refine ⟨answer_of_validTags p late d id s hnext, fun hok => ?_⟩
    obtain ⟨-, kept, hclean, hrow⟩ := configured_tags hok
    rw [cleanTags_eq hnext] at hclean
    cases hclean
    obtain ⟨rfl, htags, -⟩ := collectTags_eq_some hcollected
    rw [hrow, htags]
  · exact refused_of_collectTags hvalid.2.1 (Option.map_eq_none_iff.mp hnone) hnext

/-- The one node of a hub in which it was renamed. -/
def worker : NodeView where
  id := "222222222222222222222222"
  name := "Worker-B"
  expected := 8
  networks := []
  tags := ["lab"]
  snapshot := {}
  sampleAt := 0
  receivedAt := 0
  online := false
  enrolled := false
  created := 1700000000000

/-- The tag it has is typed again, another one is added and the first one removed; the last tag is
still in the input when the form is saved. -/
def workerEdits : List Edit :=
  [.input "lab", .collect, .input " 机房 A ", .collect, .remove "lab", .input "gpu "]

def workerSettings : NodeSettings := { name := "Worker-B", expected := 8 }

/-- The hub has the two tags that the form shows. -/
theorem saved_tags_worker :
    ((nodeCall ascii (nodeCalls ascii (freshStore Table.empty) renamedNodes)
      (refusedCreation.1, .configure worker.id
        { workerSettings with tags := some ["机房 A", "gpu"] })).2.nodes.find? worker.id).map
      NodeRow.tags = some ["机房 A", "gpu"] := by
  have hlisted : worker ∈ Hub.nodes 1700000004000
      (nodeCalls ascii (freshStore Table.empty) renamedNodes) := by decide +kernel
  have hsaved : saved workerSettings (edited (opened worker) workerEdits) =
      some { workerSettings with tags := some ["机房 A", "gpu"] } := by decide +kernel
  have hok : (nodeCall ascii (nodeCalls ascii (freshStore Table.empty) renamedNodes)
      (refusedCreation.1, .configure worker.id
        { workerSettings with tags := some ["机房 A", "gpu"] })).1 = .ok () := by decide +kernel
  have hshown : (collectTags (edited (opened worker) workerEdits)).1.tags = ["机房 A", "gpu"] := by
    decide +kernel
  exact (((saved_tags ascii ascii_comm (freshStore Table.empty) rfl renamedNodes 1700000004000
    worker hlisted workerEdits workerSettings _ _ _).2.1 _ hsaved).2 hok).trans
      (congrArg some hshown)

end CardScope.Web.Tags

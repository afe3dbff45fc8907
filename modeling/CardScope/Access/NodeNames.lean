import CardScope.Access.Credentials
import CardScope.Hub.Nodes

/-! # Names and settings of nodes

Every check of the node service precedes its one write, so the rows of the nodes stay within the
limits, and a name is compared with all other rows before it is written.
-/

namespace CardScope.Access
open Library Model Hub

/-! ## Trimming -/

theorem trimSpace_eq (s : String) :
    trimSpace s = String.ofList ((s.toList.dropWhile isSpace).rdropWhile isSpace) := rfl

/-- What is cut at the end leaves the beginning trimmed. -/
theorem dropWhile_rdropWhile {α : Type*} (p : α → Bool) (l : List α) :
    ((l.dropWhile p).rdropWhile p).dropWhile p = (l.dropWhile p).rdropWhile p := by
  rw [List.dropWhile_eq_self_iff]
  intro hpos
  have hle := (List.rdropWhile_prefix p (l.dropWhile p)).length_le
  rw [(List.rdropWhile_prefix p (l.dropWhile p)).getElem hpos]
  exact List.dropWhile_get_zero_not p l (hpos.trans_le hle)

theorem trimSpace_trimSpace (s : String) : trimSpace (trimSpace s) = trimSpace s := by
  rw [trimSpace_eq (trimSpace s), trimSpace_eq s, String.toList_ofList, dropWhile_rdropWhile,
    List.rdropWhile_idempotent]

/-! ## Rows within the limits -/

def ValidName (name : String) : Prop := trimSpace name = name ∧ name ≠ "" ∧ len name ≤ 128

def ValidTag (tag : String) : Prop :=
  trimSpace tag = tag ∧ 1 ≤ tag.length ∧ tag.length ≤ 32 ∧ ∀ c ∈ tag.toList, isControl c = false

def ValidTags (tags : List String) : Prop :=
  tags.length ≤ 20 ∧ tags.Nodup ∧ ∀ tag ∈ tags, ValidTag tag

structure NodeRow.Valid (n : NodeRow) : Prop where
  name : ValidName n.name
  expected : 0 ≤ n.expected ∧ n.expected ≤ 128
  tags : ValidTags n.tags

/-- The nodes, with a name for each. -/
structure Named (p : Platform) (nodes : Table NodeRow NodeRow.id) : Prop where
  valid : ∀ n ∈ nodes, NodeRow.Valid n
  unique : ∀ m ∈ nodes, ∀ n ∈ nodes, m.id ≠ n.id →
    p.equalFold (trimSpace m.name) (trimSpace n.name) = false
  identified : ∀ n ∈ nodes, n.id ≠ ""

theorem validTag_iff {tag : String} (htrim : trimSpace tag = tag) :
    ValidTag tag ↔ ¬ (tag = "" ∨ tag.length > 32 ∨ tag.toList.any isControl = true) := by
  have hempty : tag = "" ↔ tag.length = 0 := String.length_eq_zero_iff.symm
  simp only [ValidTag, htrim, true_and, hempty, not_or, not_lt, Nat.one_le_iff_ne_zero,
    List.any_eq_true, not_exists, not_and, Bool.not_eq_true]

/-- Cleaning leaves valid tags, at most as many as were given. -/
theorem cleanTags_spec {given kept tags : List String} (hok : cleanTags given kept = .ok tags)
    (hnodup : kept.Nodup) (hvalid : ∀ tag ∈ kept, ValidTag tag) :
    tags.length ≤ kept.length + given.length ∧ tags.Nodup ∧ ∀ tag ∈ tags, ValidTag tag := by
  induction given generalizing kept with
  | nil =>
    cases hok
    exact ⟨le_rfl, hnodup, hvalid⟩
  | cons tag rest ih =>
    simp only [cleanTags] at hok
    split_ifs at hok with hbad hseen
    · obtain ⟨hlength, hrest⟩ := ih hok hnodup hvalid
      exact ⟨by rw [List.length_cons]; omega, hrest⟩
    · have htag : ValidTag (trimSpace tag) := (validTag_iff (trimSpace_trimSpace tag)).mpr hbad
      obtain ⟨hlength, hrest⟩ := ih hok
        (by simpa using hnodup.concat hseen)
        (fun t ht => (List.mem_append.mp ht).elim (hvalid t)
          (fun h => List.mem_singleton.mp h ▸ htag))
      refine ⟨?_, hrest⟩
      rw [List.length_append, List.length_singleton] at hlength
      rw [List.length_cons]
      omega

/-! ## One call -/

section Call

variable {p : Platform} {st : Store}

theorem nameTaken_eq_false {name exceptID : String} :
    nameTaken p st name exceptID = false ↔
      ∀ n ∈ st.nodes, n.id ≠ exceptID → p.equalFold (trimSpace n.name) name = false := by
  unfold nameTaken
  rw [List.any_eq_false]
  simp [Table.mem_def]

theorem nodeIDOf_ne (t : Token) : nodeIDOf t ≠ "" := by
  intro h
  have htake : t.text.toList.take 24 = [] := by simpa [nodeIDOf] using congrArg String.toList h
  have htext : t.text = "" := by
    rw [List.take_eq_nil_iff] at htake
    simpa using htake
  have hsize := t.size
  rw [htext] at hsize
  exact absurd hsize (by decide)

theorem Named.insert (hsymm : ∀ a b, p.equalFold a b = p.equalFold b a) (h : Named p st.nodes)
    {row : NodeRow} (hkey : ¬ st.nodes.HasKey row.id) (hid : row.id ≠ "") (hvalid : NodeRow.Valid row)
    (hfree : nameTaken p st row.name "" = false) : Named p (st.nodes.insert row hkey) := by
  have hnew : ∀ n ∈ st.nodes, p.equalFold (trimSpace n.name) (trimSpace row.name) = false := by
    intro n hn
    rw [hvalid.name.1]
    exact nameTaken_eq_false.mp hfree n hn (h.identified n hn)
  refine ⟨fun n hn => ?_, fun m hm n hn hne => ?_, fun n hn => ?_⟩
  · rcases Table.mem_insert.mp hn with rfl | hn
    · exact hvalid
    · exact h.valid n hn
  · rcases Table.mem_insert.mp hm with hm | hm <;> rcases Table.mem_insert.mp hn with hn | hn
    · exact absurd (by rw [hm, hn]) hne
    · rw [hm, hsymm]
      exact hnew n hn
    · rw [hn]
      exact hnew m hm
    · exact h.unique m hm n hn hne
  · rcases Table.mem_insert.mp hn with rfl | hn
    · exact hid
    · exact h.identified n hn

theorem Named.modify (hsymm : ∀ a b, p.equalFold a b = p.equalFold b a) (h : Named p st.nodes)
    {id : String} {f : NodeRow → NodeRow} (hf : ∀ n, (f n).id = n.id)
    (hvalid : ∀ n ∈ st.nodes, n.id = id → NodeRow.Valid (f n))
    (hfree : ∀ n ∈ st.nodes, n.id = id → ∀ m ∈ st.nodes, m.id ≠ id →
      p.equalFold (trimSpace m.name) (trimSpace (f n).name) = false) :
    Named p (st.nodes.modify id f hf) := by
  have hkey : ∀ n : NodeRow, (if n.id = id then f n else n).id = n.id := by
    intro n
    split_ifs
    · exact hf n
    · rfl
  refine ⟨fun n' hn' => ?_, fun m' hm' n' hn' hne => ?_, fun n' hn' => ?_⟩
  · obtain ⟨n, hn, rfl⟩ := Table.mem_modify.mp hn'
    split_ifs with hid
    · exact hvalid n hn hid
    · exact h.valid n hn
  · obtain ⟨m, hm, rfl⟩ := Table.mem_modify.mp hm'
    obtain ⟨n, hn, rfl⟩ := Table.mem_modify.mp hn'
    rw [hkey, hkey] at hne
    split_ifs with hmid hnid hnid
    · exact absurd (hmid.trans hnid.symm) hne
    · rw [hsymm]
      exact hfree m hm hmid n hn hnid
    · exact hfree n hn hnid m hm hmid
    · exact h.unique m hm n hn hne
  · obtain ⟨n, hn, rfl⟩ := Table.mem_modify.mp hn'
    rw [hkey]
    exact h.identified n hn

theorem Named.credentials (hsymm : ∀ a b, p.equalFold a b = p.equalFold b a) (h : Named p st.nodes)
    {id : String} (f : NodeRow → NodeRow) {hf : ∀ n, (f n).id = n.id}
    (hsame : ∀ n, (f n).name = n.name ∧ (f n).expected = n.expected ∧ (f n).tags = n.tags)
    {st' : Store} (hok : updateRow st id f hf = .ok st') : Named p st'.nodes := by
  unfold updateRow at hok
  split_ifs at hok
  cases hok
  refine h.modify hsymm hf (fun n hn _ => ?_) (fun n hn hid m hm hne => ?_)
  · obtain ⟨hname, hexpected, htags⟩ := hsame n
    obtain ⟨hn, he, ht⟩ := h.valid n hn
    exact ⟨hname.symm ▸ hn, hexpected.symm ▸ he, htags.symm ▸ ht⟩
  · rw [(hsame n).1]
    exact h.unique m hm n hn (fun he => hne (he.trans hid))

theorem Named.create (hsymm : ∀ a b, p.equalFold a b = p.equalFold b a) (h : Named p st.nodes)
    {d : Draw} {name : String} {result : NodeEnrollment × Store}
    (hok : create p d st name = .ok result) : Named p result.2.nodes := by
  simp only [Hub.create] at hok
  split_ifs at hok with hbad htaken hkey
  cases hok
  simp only [not_or, not_lt] at hbad
  exact h.insert hsymm hkey (nodeIDOf_ne _)
    ⟨⟨trimSpace_trimSpace name, hbad.1, hbad.2⟩, ⟨le_rfl, by simp⟩, by simp, by simp, by simp⟩
    (by simpa using htaken)

theorem Named.configure (hsymm : ∀ a b, p.equalFold a b = p.equalFold b a) (h : Named p st.nodes)
    {id : String} {s : NodeSettings} {st' : Store} (hok : configure p st id s = .ok st') :
    Named p st'.nodes := by
  simp only [Hub.configure] at hok
  split_ifs at hok with hbad htaken hnetworks hmany
  simp only [not_or, not_lt] at hbad
  cases hclean : cleanTags (s.tags.getD []) [] with
  | error e => simp [hclean, bind, Except.bind] at hok
  | ok tags =>
    obtain ⟨hlength, hnodup, hvalid⟩ := cleanTags_spec hclean List.nodup_nil (by simp)
    have htags : ValidTags tags := by
      refine ⟨?_, hnodup, hvalid⟩
      rw [List.length_nil] at hlength
      omega
    simp only [hclean, bind, Except.bind, updateRow] at hok
    split_ifs at hok
    cases hok
    refine h.modify (f := NodeRow.configured s (trimSpace s.name) tags) hsymm (fun _ => rfl)
      (fun n hn _ => ?_) (fun n _ _ m hm hne => ?_)
    · refine ⟨⟨trimSpace_trimSpace s.name, hbad.1, hbad.2.1⟩, ⟨hbad.2.2.1, hbad.2.2.2.1⟩, ?_⟩
      simp only [NodeRow.configured]
      split_ifs
      · exact htags
      · exact (h.valid n hn).tags
    · simp only [NodeRow.configured, trimSpace_trimSpace]
      exact nameTaken_eq_false.mp (by simpa using htaken) m hm hne

theorem Named.operation (hsymm : ∀ a b, p.equalFold a b = p.equalFold b a) (h : Named p st.nodes)
    {c : Draw × NodeCall} {st' : Store} (hok : nodeOperation p st c = .ok st') :
    Named p st'.nodes := by
  obtain ⟨d, c⟩ := c
  cases c with
  | create name =>
    simp only [nodeOperation] at hok
    cases hc : Hub.create p d st name with
    | error e => simp [hc, Except.map] at hok
    | ok result =>
      simp only [hc, Except.map, Except.ok.injEq] at hok
      exact hok ▸ h.create hsymm hc
  | configure id s => exact h.configure hsymm hok
  | issueCode id =>
    simp only [nodeOperation, issueCode] at hok
    cases hu : updateRow st id (NodeRow.issued (p.hash d.first.text) (codeExpiry d.now))
        (fun _ => rfl) with
    | error e => simp [hu, bind, Except.bind, Except.map] at hok
    | ok updated =>
      simp only [hu, bind, Except.bind, pure, Except.pure, Except.map, Except.ok.injEq] at hok
      exact hok ▸ h.credentials hsymm (NodeRow.issued _ _) (fun _ => ⟨rfl, rfl, rfl⟩) hu
  | revoke id => exact h.credentials hsymm NodeRow.revoked (fun _ => ⟨rfl, rfl, rfl⟩) hok

theorem Named.call (hsymm : ∀ a b, p.equalFold a b = p.equalFold b a) (h : Named p st.nodes)
    (c : Draw × NodeCall) : Named p (nodeCall p st c).2.nodes := by
  rw [nodeCall_eq]
  cases hok : nodeOperation p st c with
  | error e => exact h
  | ok st' => exact h.operation hsymm hok

/-- A configuration without tags keeps those of every node. -/
theorem tags_of_configure_none (d : Draw) (id : String) {s : NodeSettings} (hs : s.tags = none)
    (k : String) :
    ((nodeCall p st (d, .configure id s)).2.nodes.find? k).map NodeRow.tags =
      (st.nodes.find? k).map NodeRow.tags := by
  simp only [nodeCall]
  split_ifs
  · rfl
  · rfl
  · rfl
  · rfl
  · cases cleanTags (s.tags.getD []) [] with
    | error e => rfl
    | ok tags =>
      have hfind := Table.find?_modify st.nodes id
        (NodeRow.configured s (trimSpace s.name) tags) (fun _ => rfl) k
      apply (congrArg (Option.map NodeRow.tags) hfind).trans
      cases st.nodes.find? k with
      | none => rfl
      | some n => by_cases hid : id = k <;> simp [hid, NodeRow.configured, hs]

theorem named_nodeCalls (hsymm : ∀ a b, p.equalFold a b = p.equalFold b a)
    (hempty : st.nodes = Table.empty) (calls : List (Draw × NodeCall)) :
    Named p (nodeCalls p st calls).nodes := by
  refine foldl_invariant (fun st c => (nodeCall p st c).2) (fun _ st => Named p st.nodes)
    (fun c rest st h => h.call hsymm c) calls st ?_
  rw [hempty]
  exact ⟨by simp, by simp, by simp⟩

end Call

/-- After every sequence of calls from an empty table the names of two nodes differ, the settings
are within the limits, and a call that leaves the tags out or fails changes none. -/
theorem nodes_named (p : Platform) (hsymm : ∀ a b, p.equalFold a b = p.equalFold b a) (st : Store)
    (hempty : st.nodes = Table.empty) (calls : List (Draw × NodeCall)) :
    let st' := nodeCalls p st calls
    (∀ m ∈ st'.nodes, ∀ n ∈ st'.nodes, m.id ≠ n.id →
      p.equalFold (trimSpace m.name) (trimSpace n.name) = false) ∧
    (∀ n ∈ st'.nodes, NodeRow.Valid n) ∧
    (∀ d id s, s.tags = none → ∀ k,
      ((nodeCall p st' (d, .configure id s)).2.nodes.find? k).map NodeRow.tags =
        (st'.nodes.find? k).map NodeRow.tags) ∧
    (∀ c e, (nodeCall p st' c).1 = .error e → (nodeCall p st' c).2.nodes = st'.nodes) := by
  intro st'
  have hnamed : Named p st'.nodes := named_nodeCalls hsymm hempty calls
  refine ⟨hnamed.unique, hnamed.valid, fun d id s hs => tags_of_configure_none d id hs,
    fun c e herror => ?_⟩
  rw [nodeCall_eq] at herror ⊢
  rw [answered_error herror]

theorem ascii_comm (a b : String) : ascii.equalFold a b = ascii.equalFold b a :=
  Bool.beq_comm

/-- A creation, a rename with tags and a second creation under the old name. -/
def renamedNodes : List (Draw × NodeCall) :=
  [(⟨1700000000000, .replicate '2', .replicate '3', fun _ => none⟩, .create "  Worker-A "),
    (⟨1700000001000, .replicate '4', .replicate '5', fun _ => none⟩,
      .configure "222222222222222222222222"
      { name := "Worker-B", expected := 8, tags := some [" lab ", "lab"] }),
    (⟨1700000002000, .replicate '6', .replicate '7', fun _ => none⟩, .create "worker-a")]

def refusedCreation : Draw × NodeCall :=
  (⟨1700000003000, .replicate '0', .replicate '1', fun _ => none⟩, .create "WORKER-B")

/-- The last name is taken, in another case. -/
theorem nodes_named_renamed :
    (nodeCall ascii (nodeCalls ascii (freshStore Table.empty) renamedNodes)
      refusedCreation).2.nodes =
        (nodeCalls ascii (freshStore Table.empty) renamedNodes).nodes := by
  have hfails : (nodeCall ascii (nodeCalls ascii (freshStore Table.empty) renamedNodes)
      refusedCreation).1 = .error (.input "节点名称已存在") := by decide +kernel
  exact (nodes_named ascii ascii_comm (freshStore Table.empty) rfl renamedNodes).2.2.2
    refusedCreation (.input "节点名称已存在") hfails

end CardScope.Access

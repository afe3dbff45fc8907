import CardScope.Access.Reachable
import CardScope.Integration.Weights

/-! # The rows of one node

The part of a store that belongs to one node, and what the writes of an upload do to it: those of
its own node act on this part alone, those of another node leave it as it is.
-/

namespace CardScope.Isolation
open Library Model Hub Ingestion

/-- The rows of one node, as a store that holds nothing else. -/
def ofNode (n : String) (st : Store) : Store where
  settings := Table.empty
  accounts := Table.empty
  sessions := Table.empty
  nodes := st.nodes.only (fun id => id = n)
  samples := st.samples.only (fun k => k.1 = n)
  gpus := st.gpus.only (fun k => k.1 = n)
  points := st.points.only (fun k => k.1 = n)
  edges := st.edges.only (fun k => k.1 = n)
  rollups := st.rollups.only (fun k => k.node = n)
  events := st.events.filter (fun e => e.node = n)

/-- Every stored contribution names the node of its edge. -/
def OwnEdges (st : Store) : Prop := ∀ e ∈ st.edges, ∀ c ∈ e.data, c.key.node = e.node

variable {n : String} {st tx tx' : Store} {s : Snapshot} {g : GPU}

section Links

variable {node uuid boot : String} {a b : Point}

theorem only_applyContributions {cs : List Contribution} (h : ∀ c ∈ cs, c.key.node = n)
    (rollups : Table RollupRow RollupRow.key) (sign : ℚ) :
    (applyContributions rollups cs sign).only (fun k => k.node = n) =
      applyContributions (rollups.only (fun k => k.node = n)) cs sign := by
  induction cs generalizing rollups with
  | nil => rfl
  | cons c cs ih =>
    have hc : (upsertRollup rollups c sign).only (fun k => k.node = n) =
        upsertRollup (rollups.only (fun k => k.node = n)) c sign :=
      Table.only_upsert (decide_eq_true (h c List.mem_cons_self))
    change (applyContributions (upsertRollup rollups c sign) cs sign).only _ = _
    rw [ih (fun d hd => h d (List.mem_cons_of_mem _ hd)), hc]
    rfl

theorem only_applyContributions_of_other {cs : List Contribution}
    (h : ∀ c ∈ cs, c.key.node ≠ n) (rollups : Table RollupRow RollupRow.key) (sign : ℚ) :
    (applyContributions rollups cs sign).only (fun k => k.node = n) =
      rollups.only (fun k => k.node = n) := by
  induction cs generalizing rollups with
  | nil => rfl
  | cons c cs ih =>
    change (applyContributions (upsertRollup rollups c sign) cs sign).only _ = _
    rw [ih (fun d hd => h d (List.mem_cons_of_mem _ hd))]
    exact Table.only_upsert_of_other (decide_eq_false (h c List.mem_cons_self))

theorem contributions_node {c : Contribution} (h : c ∈ contributions node uuid a b) :
    c.key.node = node :=
  (Integration.key_of_mem_contributions h).1

theorem OwnEdges.edgeData (h : OwnEdges tx) {seq : ℤ} {c : Contribution}
    (hc : c ∈ tx.edgeData node uuid boot seq) : c.key.node = node := by
  unfold Store.edgeData at hc
  cases hf : tx.edges.find? (node, uuid, boot, seq) with
  | none => simp [hf] at hc
  | some e =>
    rw [hf, Option.elim_some] at hc
    obtain ⟨he, hk⟩ := Table.find?_eq_some.mp hf
    rw [h e he c hc]
    exact (Prod.mk.inj hk).1

theorem OwnEdges.replaceEdge (h : OwnEdges tx) (node uuid boot : String) (a b : Point) :
    OwnEdges (Hub.replaceEdge tx node uuid boot a b) := by
  intro e he c hc
  rw [replaceEdge_edges, Table.mem_put] at he
  rcases he with rfl | ⟨he, -⟩
  · exact contributions_node hc
  · exact h e he c hc

theorem edgeData_ofNode (node uuid boot : String) (seq : ℤ) (tx : Store) :
    (ofNode node tx).edgeData node uuid boot seq = tx.edgeData node uuid boot seq := by
  have hfind : (ofNode node tx).edges.find? (node, uuid, boot, seq) =
      tx.edges.find? (node, uuid, boot, seq) := Table.find?_only (decide_eq_true rfl)
  unfold Store.edgeData
  rw [hfind]

theorem replaceEdge_ofNode (h : OwnEdges tx) (node uuid boot : String) (a b : Point) :
    ofNode node (replaceEdge tx node uuid boot a b) =
      replaceEdge (ofNode node tx) node uuid boot a b := by
  have hedges : (replaceEdge tx node uuid boot a b).edges.only (fun k => k.1 = node) =
      (replaceEdge (ofNode node tx) node uuid boot a b).edges :=
    Table.only_put (decide_eq_true rfl)
  have hrollups : (replaceEdge tx node uuid boot a b).rollups.only (fun k => k.node = node) =
      (replaceEdge (ofNode node tx) node uuid boot a b).rollups := by
    rw [replaceEdge_rollups, replaceEdge_rollups, edgeData_ofNode,
      only_applyContributions (fun c => contributions_node),
      only_applyContributions (fun c hc => h.edgeData hc)]
    rfl
  exact Store.ext rfl rfl rfl rfl rfl rfl rfl hedges hrollups rfl

theorem replaceEdge_of_other (h : OwnEdges tx) (hn : node ≠ n) (uuid boot : String)
    (a b : Point) : ofNode n (replaceEdge tx node uuid boot a b) = ofNode n tx := by
  have hedges : (replaceEdge tx node uuid boot a b).edges.only (fun k => k.1 = n) =
      tx.edges.only (fun k => k.1 = n) := Table.only_put_of_other (decide_eq_false hn)
  have hrollups : (replaceEdge tx node uuid boot a b).rollups.only (fun k => k.node = n) =
      tx.rollups.only (fun k => k.node = n) := by
    rw [replaceEdge_rollups,
      only_applyContributions_of_other (fun c hc => by rw [contributions_node hc]; exact hn),
      only_applyContributions_of_other (fun c hc => by rw [h.edgeData hc]; exact hn)]
  exact Store.ext rfl rfl rfl rfl rfl rfl rfl hedges hrollups rfl

end Links

section Neighbours

theorem laneRows_ofNode (n u b : String) (tx : Store) :
    (ofNode n tx).laneRows n u b = tx.laneRows n u b := by
  have hrows : (ofNode n tx).points.rows =
      tx.points.rows.filter (fun r => decide (r.key.1 = n)) := rfl
  unfold Store.laneRows
  rw [hrows, List.filter_filter]
  apply List.filter_congr
  intro r _
  by_cases hr : r.node = n <;> simp [PointRow.key, hr]

theorem pointBefore_ofNode (n u b : String) (time : ℤ) (tx : Store) :
    (ofNode n tx).pointBefore n u b time = tx.pointBefore n u b time := by
  rw [Store.pointBefore, Store.pointBefore, laneRows_ofNode]

theorem pointAfter_ofNode (n u b : String) (time : ℤ) (tx : Store) :
    (ofNode n tx).pointAfter n u b time = tx.pointAfter n u b time := by
  rw [Store.pointAfter, Store.pointAfter, laneRows_ofNode]

theorem linkNeighbours_ofNode (h : OwnEdges tx) (node uuid boot : String) (p : Point)
    (before after : Option Point) : ofNode node (linkNeighbours tx node uuid boot p before after) =
      linkNeighbours (ofNode node tx) node uuid boot p before after := by
  cases before with
  | none =>
    cases after with
    | none => rfl
    | some c => exact replaceEdge_ofNode h node uuid boot p c
  | some a =>
    have ha := replaceEdge_ofNode h node uuid boot a p
    cases after with
    | none => exact ha
    | some c =>
      simp only [linkNeighbours]
      rw [replaceEdge_ofNode (h.replaceEdge node uuid boot a p), ha]

theorem linkNeighbours_of_other (h : OwnEdges tx) {node : String} (hn : node ≠ n)
    (uuid boot : String) (p : Point) (before after : Option Point) :
    ofNode n (linkNeighbours tx node uuid boot p before after) = ofNode n tx := by
  cases before with
  | none =>
    cases after with
    | none => rfl
    | some c => exact replaceEdge_of_other h hn uuid boot p c
  | some a =>
    have ha := replaceEdge_of_other h hn uuid boot a p
    cases after with
    | none => exact ha
    | some c =>
      simp only [linkNeighbours]
      rw [replaceEdge_of_other (h.replaceEdge node uuid boot a p) hn, ha]

theorem OwnEdges.linkNeighbours (h : OwnEdges tx) (node uuid boot : String) (p : Point)
    (before after : Option Point) :
    OwnEdges (Hub.linkNeighbours tx node uuid boot p before after) := by
  cases before with
  | none =>
    cases after with
    | none => exact h
    | some c => exact h.replaceEdge node uuid boot p c
  | some a =>
    cases after with
    | none => exact h.replaceEdge node uuid boot a p
    | some c => exact (h.replaceEdge node uuid boot a p).replaceEdge node uuid boot p c

end Neighbours

section Events

theorem filter_map_node (f : EventRow → EventRow) (hf : ∀ e, (f e).node = e.node)
    (events : List EventRow) : (events.map f).filter (fun e => e.node = n) =
      (events.filter (fun e => e.node = n)).map f := by
  rw [List.filter_map]
  simp only [Function.comp_def, hf]

theorem startedEvents_ofNode (s : Snapshot) (g : GPU) (before after : Option Point)
    (events : List EventRow) :
    (startedEvents s g before after events).filter (fun e => e.node = s.nodeID) =
      startedEvents s g before after (events.filter (fun e => e.node = s.nodeID)) := by
  unfold startedEvents
  split_ifs
  · exact List.filter_cons_of_pos (decide_eq_true rfl)
  · refine filter_map_node _ (fun e => ?_) events
    split_ifs <;> rfl
  · rfl

theorem startedEvents_of_other (hn : s.nodeID ≠ n) (g : GPU) (before after : Option Point)
    (events : List EventRow) : (startedEvents s g before after events).filter (fun e => e.node = n) =
      events.filter (fun e => e.node = n) := by
  unfold startedEvents
  split_ifs
  · exact List.filter_cons_of_neg (by simpa using hn)
  · rw [filter_map_node _ (fun e => by split_ifs <;> rfl)]
    conv_rhs => rw [← List.map_id (events.filter _)]
    apply List.map_congr_left
    intro e he
    have hnode : e.node = n := of_decide_eq_true (List.mem_filter.mp he).2
    rw [if_neg (fun hown => hn (hown.1.symm.trans hnode)), id]
  · rfl

theorem failureEvents_ofNode (s : Snapshot) (g : GPU) (before : Option Point)
    (events : List EventRow) :
    (failureEvents s g before events).filter (fun e => e.node = s.nodeID) =
      failureEvents s g before (events.filter (fun e => e.node = s.nodeID)) := by
  unfold failureEvents
  split_ifs
  · exact List.filter_cons_of_pos (decide_eq_true rfl)
  · rfl

theorem failureEvents_of_other (hn : s.nodeID ≠ n) (g : GPU) (before : Option Point)
    (events : List EventRow) : (failureEvents s g before events).filter (fun e => e.node = n) =
      events.filter (fun e => e.node = n) := by
  unfold failureEvents
  split_ifs
  · exact List.filter_cons_of_neg (by simpa using hn)
  · rfl

theorem node_missingEvents {s : Snapshot} {missing : List GPU} {e : EventRow}
    (he : e ∈ missingEvents s missing) : e.node = s.nodeID := by
  obtain ⟨g, -, rfl⟩ := List.mem_map.mp (List.mem_reverse.mp he)
  rfl

end Events

section Observe

theorem hasKey_point_ofNode (s : Snapshot) (g : GPU) (tx : Store) :
    (ofNode s.nodeID tx).points.HasKey (pointRow s g).key ↔
      tx.points.HasKey (pointRow s g).key :=
  Table.hasKey_only (decide_eq_true rfl)

theorem only_points_insert {r : PointRow} (hr : r.node = n) (h : ¬ tx.points.HasKey r.key)
    (hpart : ¬ (ofNode n tx).points.HasKey r.key) :
    (ofNode n { tx with points := tx.points.insert r h }).points =
      (ofNode n tx).points.insert r hpart :=
  Table.only_insert (q := fun k : String × String × String × ℤ => k.1 = n) h (decide_eq_true hr)

theorem only_points_insert_of_other {r : PointRow} (hr : r.node ≠ n)
    (h : ¬ tx.points.HasKey r.key) :
    (ofNode n { tx with points := tx.points.insert r h }).points = (ofNode n tx).points :=
  Table.only_insert_of_other (q := fun k : String × String × String × ℤ => k.1 = n) h
    (decide_eq_false hr)

theorem only_upsertGPU (s : Snapshot) (g : GPU) (gpus : Table GPURow GPURow.key) :
    (upsertGPU gpus s g).only (fun k => k.1 = s.nodeID) =
      upsertGPU (gpus.only (fun k => k.1 = s.nodeID)) s g := by
  have hk : (fun k : String × String => decide (k.1 = s.nodeID)) (gpuRow s g).key = true :=
    decide_eq_true rfl
  exact Table.only_upsert hk

theorem only_upsertGPU_of_other (hn : s.nodeID ≠ n) (g : GPU) (gpus : Table GPURow GPURow.key) :
    (upsertGPU gpus s g).only (fun k => k.1 = n) = gpus.only (fun k => k.1 = n) := by
  have hk : (fun k : String × String => decide (k.1 = n)) (gpuRow s g).key = false :=
    decide_eq_false hn
  exact Table.only_upsert_of_other hk

theorem observe_ofNode (h : OwnEdges tx) (s : Snapshot) (g : GPU) :
    observe s (ofNode s.nodeID tx) g = (observe s tx g).map (ofNode s.nodeID) := by
  unfold observe
  simp only [pointBefore_ofNode, pointAfter_ofNode]
  by_cases hkey : tx.points.HasKey (pointRow s g).key
  · rw [dif_pos hkey, dif_pos ((hasKey_point_ofNode s g tx).mpr hkey)]
    rfl
  · have hpart : ¬ (ofNode s.nodeID tx).points.HasKey (pointRow s g).key :=
      fun hk => hkey ((hasKey_point_ofNode s g tx).mp hk)
    rw [dif_neg hkey, dif_neg hpart]
    generalize tx.pointBefore s.nodeID g.uuid s.bootID s.atMs = before
    generalize tx.pointAfter s.nodeID g.uuid s.bootID s.atMs = after
    have hinsert : ofNode s.nodeID { tx with points := tx.points.insert (pointRow s g) hkey } =
        { ofNode s.nodeID tx with
          points := (ofNode s.nodeID tx).points.insert (pointRow s g) hpart } :=
      Store.ext rfl rfl rfl rfl rfl rfl (only_points_insert rfl hkey hpart) rfl rfl rfl
    have hown : OwnEdges { tx with points := tx.points.insert (pointRow s g) hkey } := h
    have hlink := linkNeighbours_ofNode hown s.nodeID g.uuid s.bootID (pointOf s g) before after
    rw [hinsert] at hlink
    rw [← hlink]
    generalize linkNeighbours { tx with points := tx.points.insert (pointRow s g) hkey } s.nodeID
      g.uuid s.bootID (pointOf s g) before after = t
    have hevents : failureEvents s g before (startedEvents s g before after
        (ofNode s.nodeID t).events) = (failureEvents s g before (startedEvents s g before after
          t.events)).filter (fun e => e.node = s.nodeID) := by
      rw [failureEvents_ofNode, startedEvents_ofNode]
      rfl
    have hgpus : upsertGPU (ofNode s.nodeID t).gpus s g =
        (upsertGPU t.gpus s g).only (fun k => k.1 = s.nodeID) := (only_upsertGPU s g t.gpus).symm
    simp only [Except.map, hevents, hgpus]
    rfl

theorem observe_of_other (h : OwnEdges tx) (hn : s.nodeID ≠ n) (ho : observe s tx g = .ok tx') :
    ofNode n tx' = ofNode n tx := by
  unfold observe at ho
  split_ifs at ho with hkey
  cases ho
  have hown : OwnEdges { tx with points := tx.points.insert (pointRow s g) hkey } := h
  have hlink := linkNeighbours_of_other (n := n) hown hn g.uuid s.bootID (pointOf s g)
    (tx.pointBefore s.nodeID g.uuid s.bootID s.atMs) (tx.pointAfter s.nodeID g.uuid s.bootID s.atMs)
  have hinsert : ofNode n { tx with points := tx.points.insert (pointRow s g) hkey } = ofNode n tx :=
    Store.ext rfl rfl rfl rfl rfl rfl (only_points_insert_of_other hn hkey) rfl rfl rfl
  rw [← hinsert, ← hlink]
  refine Store.ext rfl rfl rfl rfl rfl ?_ rfl rfl rfl ?_
  · exact only_upsertGPU_of_other hn g _
  · exact (failureEvents_of_other hn g _ _).trans (startedEvents_of_other hn g _ _ _)

theorem OwnEdges.observe (h : OwnEdges tx) (ho : Hub.observe s tx g = .ok tx') : OwnEdges tx' := by
  unfold Hub.observe at ho
  split_ifs at ho with hkey
  cases ho
  have hown : OwnEdges { tx with points := tx.points.insert (pointRow s g) hkey } := h
  exact hown.linkNeighbours s.nodeID g.uuid s.bootID (pointOf s g) _ _

end Observe

section Live

variable {node : NodeRow} {now : ℤ}

theorem only_nodes_modify {k : String} (f : NodeRow → NodeRow) (hf : ∀ r, (f r).id = r.id) :
    (ofNode n { tx with nodes := tx.nodes.modify k f hf }).nodes =
      (ofNode n tx).nodes.modify k f hf :=
  Table.only_modify (q := fun id => id = n) tx.nodes k f hf

theorem only_nodes_modify_of_other {k : String} (hn : k ≠ n) (f : NodeRow → NodeRow)
    (hf : ∀ r, (f r).id = r.id) :
    (ofNode n { tx with nodes := tx.nodes.modify k f hf }).nodes = (ofNode n tx).nodes :=
  Table.only_modify_of_other (q := fun id => id = n) tx.nodes f hf (decide_eq_false hn)

theorem refreshLive_ofNode (s : Snapshot) (node : NodeRow) (tx : Store) :
    ofNode s.nodeID (refreshLive s node tx) = refreshLive s node (ofNode s.nodeID tx) := by
  unfold refreshLive
  split_ifs
  · refine Store.ext rfl rfl rfl (only_nodes_modify _ _) rfl rfl rfl rfl rfl ?_
    have hown : (missingEvents s (missingGPUs s node)).filter (fun e => e.node = s.nodeID) =
        missingEvents s (missingGPUs s node) :=
      List.filter_eq_self.mpr (fun e he => decide_eq_true (node_missingEvents he))
    change (missingEvents s (missingGPUs s node) ++ tx.events).filter _ = _
    rw [List.filter_append, hown]
    rfl
  · rfl

theorem refreshLive_of_other (hn : s.nodeID ≠ n) (node : NodeRow) (tx : Store) :
    ofNode n (refreshLive s node tx) = ofNode n tx := by
  unfold refreshLive
  split_ifs
  · refine Store.ext rfl rfl rfl ?_ rfl rfl rfl rfl rfl ?_
    · exact only_nodes_modify_of_other hn _ _
    · have hnone : (missingEvents s (missingGPUs s node)).filter (fun e => e.node = n) = [] :=
        List.filter_eq_nil_iff.mpr (fun e he => by rw [node_missingEvents he]; simpa using hn)
      change (missingEvents s (missingGPUs s node) ++ tx.events).filter _ = _
      rw [List.filter_append, hnone]
      rfl
  · rfl

theorem refreshReceived_ofNode (now : ℤ) (s : Snapshot) (node : NodeRow) (tx : Store) :
    ofNode s.nodeID (refreshReceived now s node tx) =
      refreshReceived now s node (ofNode s.nodeID tx) := by
  unfold refreshReceived
  split_ifs
  · exact Store.ext rfl rfl rfl (only_nodes_modify _ _) rfl rfl rfl rfl rfl rfl
  · rfl

theorem refreshReceived_of_other (hn : s.nodeID ≠ n) (now : ℤ) (node : NodeRow) (tx : Store) :
    ofNode n (refreshReceived now s node tx) = ofNode n tx := by
  unfold refreshReceived
  split_ifs
  · refine Store.ext rfl rfl rfl ?_ rfl rfl rfl rfl rfl rfl
    exact only_nodes_modify_of_other hn _ _
  · rfl

theorem carriedGPUs_ofNode (s : Snapshot) (old : List GPU) (tx : Store) :
    carriedGPUs (ofNode s.nodeID tx) s old = carriedGPUs tx s old := by
  induction old with
  | nil => rfl
  | cons g rest ih =>
    have hfind : (ofNode s.nodeID tx).gpus.find? (s.nodeID, g.uuid) =
        tx.gpus.find? (s.nodeID, g.uuid) := Table.find?_only (decide_eq_true rfl)
    rw [carriedGPUs, carriedGPUs, ih, hfind]

theorem withCarried_ofNode (s : Snapshot) (node : NodeRow) (tx : Store) :
    withCarried (ofNode s.nodeID tx) node s = withCarried tx node s := by
  unfold withCarried
  rw [carriedGPUs_ofNode]

end Live

end CardScope.Isolation

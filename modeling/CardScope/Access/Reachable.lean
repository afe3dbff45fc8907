import CardScope.Access.Handling

/-! # Reachable stores

The measurements are written by uploads and cleanups only. Every other request changes the texts,
the accounts, the sessions or the nodes.
-/

namespace CardScope.Access
open Library Model Hub Hub.Api

/-- The stores of a running hub. Administration may leave anything in the tables that carry no
measurement. -/
inductive Reachable : Store → Prop where
  | fresh (nodes : Table NodeRow NodeRow.id) : Reachable (freshStore nodes)
  | ingested {st : Store} (now : ℤ) (s : Snapshot) (h : Reachable st) :
      Reachable (ingested now st s)
  | prune {st : Store} (now : ℤ) (h : Reachable st) : Reachable (prune now st)
  | administered {st : Store} (settings : Table SettingRow SettingRow.key)
      (accounts : Table AccountRow AccountRow.username)
      (sessions : Table SessionRow SessionRow.hash) (nodes : Table NodeRow NodeRow.id)
      (h : Reachable st) : Reachable { st with
        settings := settings, accounts := accounts, sessions := sessions, nodes := nodes }

theorem reachable_run {st : Store} (h : Reachable st) (events : List Event) :
    Reachable (Hub.run st events) := by
  refine foldl_invariant Hub.step (fun _ st => Reachable st) (fun e rest st hst => ?_) events st h
  cases e with
  | ingest now s => exact hst.ingested now s
  | prune now => exact hst.prune now

theorem Outcome.reachable {p : Platform} {d : Draw} {st st' : Store} (ho : Outcome p d st st')
    (hst : Reachable st) : Reachable st' := by
  cases ho with
  | serve q =>
    rcases serve_cases (p := p) (d := d) st q with ⟨s, hs⟩ | ⟨nodes, hs, -⟩
    · rw [hs]
      exact hst.ingested d.now s
    · rw [hs]
      exact hst.administered _ _ _ _
  | access settings accounts sessions => exact hst.administered _ _ _ _

theorem reachable_api (p : Platform) (d : Draw) (h : HubState) (r : Request)
    (hst : Reachable h.db) : Reachable (api p d h r).2.db := (api_outcome p d h r).reachable hst

end CardScope.Access

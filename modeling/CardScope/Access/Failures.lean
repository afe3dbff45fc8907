import CardScope.Access.SessionLog

/-! # Failures and their causes

The hub fails by itself only over a value that was drawn before or a password that could not be
hashed, never over the content of its tables.
-/

namespace CardScope.Access
open Library Model Hub Hub.Api

theorem Outcome.consistent {p : Platform} {d : Draw} {st st' : Store} (ho : Outcome p d st st')
    {n : String} (hc : Ingestion.Consistent st n) : Ingestion.Consistent st' n := by
  cases ho with
  | serve q =>
    rcases serve_cases (p := p) (d := d) st q with ⟨s, hs⟩ | hadmin
    · rw [hs]
      exact hc.ingested d.now s
    · exact hadmin.consistent hc
  | access settings accounts sessions =>
    exact {
      point_sample := hc.point_sample
      point_gpu := hc.point_gpu
      edge_point := hc.edge_point
      live_nodup := hc.live_nodup
      live_gpu := hc.live_gpu }

/-- What makes the hub fail by itself. -/
def Accident (p : Platform) (d : Draw) (h : HubState) (r : Request) : Prop :=
  (route r = "/login" ∧ h.db.sessions.HasKey (p.hash d.first.text)) ∨
  (route r = "/nodes" ∧ h.db.nodes.HasKey (nodeIDOf d.first)) ∨
  (route r = "/accounts/password" ∧ ∃ b, decode p.json.credentials r 4096 = some b ∧
    d.salted b.password = none)

variable {p : Platform} {h : HubState}

theorem validate_of_internal {now : ℤ} {st : Store} {s : Snapshot} {e : IngestError}
    (h : ingest now st s = .error e) (he : ∀ message, e ≠ .invalid message) :
    validate now s = .ok () := by
  unfold ingest at h
  cases hv : validate now s with
  | ok u => rfl
  | error message =>
    rw [hv] at h
    cases h
    exact absurd rfl (he message)

theorem status_stats {d : Draw} {r : Request} : (stats p d h r true).status = 200 := by
  unfold stats
  simp only [if_true]
  split <;> rfl

/-- A response is fine, or nothing is done, and then the request is at fault, or an accident, or an
upload of a registered node that is not stored. -/
theorem Handled.fine_or_failed {d : Draw} {r : Request} {x : Response × HubState}
    (hx : Handled p d h r x) : x.1.status < 300 ∨ x.2.db = h.db ∧
      (x.1.status < 500 ∨ Accident p d h r ∨ ∃ s e, h.db.nodes.HasKey s.nodeID ∧
        ingest d.now h.db s = .error e ∧ ∀ message, e ≠ .invalid message) := by
  have hfine : (200 : ℕ) < 300 := by decide
  cases hx with
  | refused below kept => exact .inr ⟨kept, .inl below⟩
  | page page => exact .inl hfine
  | file get path known => exact .inl (status_stats ▸ hfine)
  | sessionTaken path taken kept => exact .inr ⟨kept, .inr (.inl (.inl ⟨path, taken⟩))⟩
  | nodeTaken path taken => exact .inr ⟨rfl, .inr (.inl (.inr (.inl ⟨path, taken⟩)))⟩
  | unsalted path decoded failed =>
    exact .inr ⟨rfl, .inr (.inl (.inr (.inr ⟨path, _, decoded, failed⟩)))⟩
  | lost path registered failed internal kept =>
    exact .inr ⟨kept, .inr (.inr ⟨_, _, registered, failed, internal⟩)⟩
  | opened decoded found right inserted => exact .inl hfine
  | closed => exact .inl hfine
  | copied v => exact .inl hfine
  | changed path decoded salt => exact .inl hfine
  | served q ok plain elsewhere done => exact .inl ok

theorem served_or_kept {d : Draw} {r : Request} (hc : ∀ n, Ingestion.Consistent h.db n) :
    (api p d h r).1.status < 400 ∨ (api p d h r).2.db = h.db ∧
      ((api p d h r).1.status < 500 ∨ Accident p d h r) := by
  rcases (api_handled p d h r).fine_or_failed with
    hfine | ⟨hkept, hclient | haccident | ⟨s, e, registered, failed, internal⟩⟩
  · exact .inl (hfine.trans (by decide))
  · exact .inr ⟨hkept, .inl hclient⟩
  · exact .inr ⟨hkept, .inr haccident⟩
  · obtain ⟨st', hok⟩ :=
      Ingestion.ingest_succeeds (hc _) registered (validate_of_internal failed internal)
    rw [failed] at hok
    cases hok

theorem consistent_watched {n : String} (hc : Ingestion.Consistent h.db n)
    (occurrences : List Occurrence) :
    Ingestion.Consistent (watched p h occurrences).1.db n := by
  refine foldl_invariant (logged (happen p) (told p))
    (fun _ x => Ingestion.Consistent x.1.db n) (fun o _ x hx => ?_) occurrences (h, []) hc
  cases o with
  | request d r => exact (api_outcome p d x.1 r).consistent hx
  | cleanup now => exact Ingestion.Consistent.prune hx now

/-- A hub without measurements. -/
def startedHub (settings : Table SettingRow SettingRow.key)
    (accounts : Table AccountRow AccountRow.username) (sessions : Table SessionRow SessionRow.hash)
    (nodes : Table NodeRow NodeRow.id) (rates : Rates) : HubState where
  db := { freshStore nodes with settings := settings, accounts := accounts, sessions := sessions }
  rates := rates

/-- After every run of requests and cleanups: a request is served, or it changes no table, and it
fails over the hub itself only by accident. -/
theorem failures_explained (p : Platform) (settings : Table SettingRow SettingRow.key)
    (accounts : Table AccountRow AccountRow.username) (sessions : Table SessionRow SessionRow.hash)
    (nodes : Table NodeRow NodeRow.id) (rates : Rates) (occurrences : List Occurrence) (d : Draw)
    (r : Request) :
    (api p d (watched p (startedHub settings accounts sessions nodes rates) occurrences).1 r).1.status
        < 400 ∨
      (api p d (watched p (startedHub settings accounts sessions nodes rates) occurrences).1 r).2.db =
          (watched p (startedHub settings accounts sessions nodes rates) occurrences).1.db ∧
        ((api p d (watched p (startedHub settings accounts sessions nodes rates) occurrences).1
            r).1.status < 500 ∨
          Accident p d (watched p (startedHub settings accounts sessions nodes rates) occurrences).1
            r) := by
  have hstart : ∀ n, Ingestion.Consistent
      (startedHub settings accounts sessions nodes rates).db n := fun n =>
    (Outcome.access (p := p) (d := d) settings accounts sessions).consistent
      (Ingestion.consistent_freshStore nodes n)
  have hrun : ∀ n, Ingestion.Consistent
      (watched p (startedHub settings accounts sessions nodes rates) occurrences).1.db n :=
    fun n => consistent_watched (hstart n) occurrences
  exact served_or_kept hrun

end CardScope.Access

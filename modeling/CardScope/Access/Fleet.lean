import CardScope.Access.Credentials
import CardScope.Agent.Setup

/-! # Setting up machines

Codes are redeemed over a network that loses requests and responses. Any number of setups run on any
number of machines, next to other requests about nodes. What a machine saved is compared with what
the hub takes its uploads for.
-/

namespace CardScope.Access
open Library Model Hub

/-- Where a setup stands: its request is under way, its request is under way though the client gave
up, or its response is under way. -/
inductive Stage where
  | posted
  | abandoned
  | replied (id token : String)
  | refused

/-- A setup on a machine, with the configuration that it is going to save. -/
structure Setup (ι : Type*) where
  machine : ι
  config : Agent.ConfigFile
  code : String
  stage : Stage

/-- The hub with the history of its operations, the setups and the configurations of the machines. -/
structure Fleet (ι : Type*) where
  store : Store
  log : History
  setups : ℕ → Option (Setup ι)
  files : ι → Option Agent.ConfigFile

/-- A setup starts, its request reaches the hub, its response reaches the client, one of the two is
lost; the operator moves a configuration away; the hub serves another request. -/
inductive Turn (ι : Type*) where
  | start (k : ℕ) (i : ι) (server : String) (interval : ℤ) (code : String)
  | redeem (k : ℕ) (d : Draw)
  | finish (k : ℕ)
  | lose (k : ℕ)
  | remove (i : ι)
  | manage (r : Draw × NodeRequest)

def Turn.draws {ι : Type*} : Turn ι → List Token
  | .redeem _ d => [d.first]
  | .manage r => Access.draws r
  | _ => []

variable {ι : Type*}

def Setup.held (s : Setup ι) : Option (String × String) :=
  match s.stage with
  | .replied id token => some (id, token)
  | _ => none

def stageOf : Option (String × String × Store) → Stage
  | some (id, token, _) => .replied id token
  | none => .refused

def Fleet.serve (p : Platform) (x : Fleet ι) (r : Draw × NodeRequest) : Fleet ι :=
  { x with
    store := (serveStep p (x.store, x.log) r).1
    log := (serveStep p (x.store, x.log) r).2 }

section Turns

variable [DecidableEq ι]

def Fleet.withSetup (x : Fleet ι) (k : ℕ) (s : Option (Setup ι)) : Fleet ι :=
  { x with setups := Function.update x.setups k s }

/-- One turn; one that is not possible leaves everything as it is. -/
def Fleet.step (p : Platform) (parse : String → Option Agent.ServerURL) (x : Fleet ι) :
    Turn ι → Fleet ι
  | .start k i server interval code =>
    match x.setups k, Agent.prepare parse (x.files i) server interval with
    | none, .ok config => x.withSetup k (some ⟨i, config, trimSpace code, .posted⟩)
    | _, _ => x
  | .redeem k d => match x.setups k with
    | some s => match s.stage with
      | .posted =>
        let stage := stageOf (Hub.enroll p d x.store s.code)
        (x.serve p (d, .enroll s.code)).withSetup k (some { s with stage := stage })
      | .abandoned => (x.serve p (d, .enroll s.code)).withSetup k none
      | _ => x
    | none => x
  | .finish k => match x.setups k with
    | some s => match s.stage with
      | .replied id token =>
        let config := { s.config with nodeID := id, token := token }
        { x.withSetup k none with files := Function.update x.files s.machine (some config) }
      | .refused => x.withSetup k none
      | _ => x
    | none => x
  | .lose k => match x.setups k with
    | some s => match s.stage with
      | .posted => x.withSetup k (some { s with stage := .abandoned })
      | .abandoned | .replied _ _ | .refused => x.withSetup k none
    | none => x
  | .remove i => { x with files := Function.update x.files i none }
  | .manage r => x.serve p r

end Turns

def newFleet (st : Store) : Fleet ι where
  store := { st with nodes := Table.empty }
  log := []
  setups := fun _ => none
  files := fun _ => none

def Fleet.run [DecidableEq ι] (p : Platform) (parse : String → Option Agent.ServerURL) (x : Fleet ι)
    (turns : List (Turn ι)) : Fleet ι := turns.foldl (Fleet.step p parse) x

/-- The node and the token that a machine or a response holds. -/
def Fleet.held (x : Fleet ι) : ι ⊕ ℕ → Option (String × String)
  | .inl i => (x.files i).map (fun c => (c.nodeID, c.token))
  | .inr k => (x.setups k).bind Setup.held

/-- Store and history agree; what is held was handed out for the node, to one holder; and
configurations are complete. -/
structure Fleet.Sound (p : Platform) (x : Fleet ι) : Prop where
  tracks : Tracks p x.store x.log
  named : ∀ e ∈ x.log, e.1 ≠ ""
  handed : ∀ a id token, x.held a = some (id, token) → ∃ code, (id, .enrolled code token) ∈ x.log
  apart : ∀ a b id id' token, x.held a = some (id, token) → x.held b = some (id', token) → a = b
  setups : ∀ k s, x.setups k = some s → 2 ≤ s.config.interval ∧ s.config.interval ≤ 20
  files : ∀ i c, x.files i = some c → 2 ≤ c.interval ∧ c.interval ≤ 20

section Steps

variable {p : Platform} {x : Fleet ι}

theorem nodeIDOf_ne_empty (t : Token) : nodeIDOf t ≠ "" := by
  intro h
  have hlist := congrArg String.toList h
  have hempty : t.text.toList = [] := by simpa [nodeIDOf] using hlist
  have htext : t.text = "" := String.toList_inj.mp (by simpa using hempty)
  have hsize := t.size
  rw [htext] at hsize
  exact absurd hsize (by decide)

theorem enroll_hasKey {d : Draw} {st st' : Store} {code id token : String}
    (h : Hub.enroll p d st code = some (id, token, st')) : st.nodes.HasKey id := by
  unfold Hub.enroll redeem at h
  split_ifs at h
  cases hf : nodeOfCode p d.now st code with
  | none => simp [hf] at h
  | some n =>
    simp only [hf, Option.bind_eq_bind, Option.bind_some, Option.pure_def, Option.some.injEq,
      Prod.mk.injEq] at h
    exact ⟨n, List.mem_of_find?_eq_some hf, h.1⟩

theorem Fleet.Sound.node_named (h : x.Sound p) {id : String} (hid : x.store.nodes.HasKey id) :
    id ≠ "" := by
  obtain ⟨n, hn, rfl⟩ := hid
  obtain ⟨op, hop, -⟩ := h.tracks.rows n hn
  exact h.named _ (mem_of_lastOn hop)

theorem Fleet.Sound.performed_named (h : x.Sound p) {r : Draw × NodeRequest} {id : String}
    {op : Operation} (hp : performed p x.store r = some (id, op)) : id ≠ "" := by
  obtain ⟨d, q⟩ := r
  cases q with
  | create name =>
    cases hc : create p d x.store name with
    | error e => simp [performed, hc] at hp
    | ok result =>
      obtain ⟨e, st'⟩ := result
      simp only [performed, hc, Option.some.injEq, Prod.mk.injEq] at hp
      rw [← hp.1, (create_ok hc).1]
      exact nodeIDOf_ne_empty d.first
  | issueCode id' =>
    cases hu : updateRow x.store id' (NodeRow.issued (p.hash d.first.text) (codeExpiry d.now))
        (fun _ => rfl) with
    | error e => simp [performed, issueCode, hu, bind, Except.bind] at hp
    | ok st' =>
      simp only [performed, issueCode, hu, bind, Except.bind, pure, Except.pure,
        Option.some.injEq, Prod.mk.injEq] at hp
      rw [← hp.1]
      exact h.node_named (updateRow_ok hu).1
  | revoke id' =>
    cases hu : revoke x.store id' with
    | error e => simp [performed, hu] at hp
    | ok st' =>
      simp only [performed, hu, Option.some.injEq, Prod.mk.injEq] at hp
      rw [← hp.1]
      exact h.node_named (updateRow_ok hu).1
  | configure id' settings => cases hp
  | enroll code =>
    cases he : Hub.enroll p d x.store code with
    | none => simp [performed, he] at hp
    | some result =>
      obtain ⟨id', token, st'⟩ := result
      simp only [performed, he, Option.some.injEq, Prod.mk.injEq] at hp
      rw [← hp.1]
      exact h.node_named (enroll_hasKey he)
  | snapshots credential s => cases hp

theorem Fleet.serve_log (x : Fleet ι) (r : Draw × NodeRequest) :
    (x.serve p r).log = (performed p x.store r).toList ++ x.log := rfl

theorem Fleet.Sound.serve (h : x.Sound p) (hinj : Function.Injective p.hash)
    (hne : ∀ s, p.hash s ≠ "") {r : Draw × NodeRequest}
    (hfresh : ∀ t ∈ Access.draws r, t.text ∉ secrets x.log) : (x.serve p r).Sound p := by
  constructor
  · exact h.tracks.serve hinj hne r hfresh
  · intro e he
    rcases List.mem_append.mp he with he | he
    · exact h.performed_named (Option.mem_toList.mp he)
    · exact h.named e he
  · intro a id token ha
    obtain ⟨code, hcode⟩ := h.handed a id token ha
    exact ⟨code, List.mem_append_right _ hcode⟩
  · exact h.apart
  · exact h.setups
  · exact h.files

theorem Fleet.Sound.held_secret (h : x.Sound p) {a : ι ⊕ ℕ} {id token : String}
    (ha : x.held a = some (id, token)) : token ∈ secrets x.log := by
  obtain ⟨code, hcode⟩ := h.handed a id token ha
  exact secret_mem hcode rfl

variable [DecidableEq ι]

/-- One place holds something else: it was handed out, and no other place holds it. -/
theorem Fleet.Sound.hold (h : x.Sound p) (x' : Fleet ι) {a₀ : ι ⊕ ℕ} {v : Option (String × String)}
    (hlog : x'.log = x.log) (hheld : ∀ a, x'.held a = if a = a₀ then v else x.held a)
    (hv : ∀ id token, v = some (id, token) → (∃ code, (id, .enrolled code token) ∈ x.log) ∧
      ∀ b id', b ≠ a₀ → x.held b ≠ some (id', token)) :
    (∀ a id token, x'.held a = some (id, token) → ∃ code, (id, .enrolled code token) ∈ x'.log) ∧
      ∀ a b id id' token, x'.held a = some (id, token) → x'.held b = some (id', token) → a = b := by
  constructor
  · intro a id token ha
    rw [hheld] at ha
    rw [hlog]
    split_ifs at ha
    · exact (hv id token ha).1
    · exact h.handed a id token ha
  · intro a b id id' token ha hb
    rw [hheld] at ha hb
    split_ifs at ha hb with hak hbk hbk
    · rw [hak, hbk]
    · exact absurd hb ((hv id token ha).2 b id' hbk)
    · exact absurd ha ((hv id' token hb).2 a id hak)
    · exact h.apart a b id id' token ha hb

/-- A setup goes on; what it holds now, if anything, was handed out and is held by nobody else. -/
theorem Fleet.Sound.withSetup (h : x.Sound p) (k : ℕ) {s : Option (Setup ι)}
    (hinterval : ∀ s', s = some s' → 2 ≤ s'.config.interval ∧ s'.config.interval ≤ 20)
    (hv : ∀ id token, s.bind Setup.held = some (id, token) →
      (∃ code, (id, .enrolled code token) ∈ x.log) ∧
        ∀ b id', b ≠ .inr k → x.held b ≠ some (id', token)) : (x.withSetup k s).Sound p := by
  have hheld : ∀ a, (x.withSetup k s).held a = if a = .inr k then s.bind Setup.held else x.held a := by
    intro a
    cases a with
    | inl i => rfl
    | inr l => by_cases hl : l = k <;> simp [Fleet.held, Fleet.withSetup, hl]
  obtain ⟨hhanded, hapart⟩ := h.hold (x.withSetup k s) rfl hheld hv
  refine ⟨h.tracks, h.named, hhanded, hapart, fun l s' hs' => ?_, h.files⟩
  by_cases hl : l = k
  · apply hinterval s'
    simpa [Fleet.withSetup, hl] using hs'
  · apply h.setups l s'
    simpa [Fleet.withSetup, hl] using hs'

theorem Fleet.Sound.withoutReply (h : x.Sound p) (k : ℕ) {s : Option (Setup ι)}
    (hinterval : ∀ s', s = some s' → 2 ≤ s'.config.interval ∧ s'.config.interval ≤ 20)
    (hnone : s.bind Setup.held = none) : (x.withSetup k s).Sound p :=
  h.withSetup k hinterval (fun id token hs => by rw [hnone] at hs; cases hs)

theorem Fleet.Sound.withFile (h : x.Sound p) (i : ι) {c : Option Agent.ConfigFile}
    (hinterval : ∀ c', c = some c' → 2 ≤ c'.interval ∧ c'.interval ≤ 20)
    (hv : ∀ id token, c.map (fun c => (c.nodeID, c.token)) = some (id, token) →
      (∃ code, (id, .enrolled code token) ∈ x.log) ∧
        ∀ b id', b ≠ .inl i → x.held b ≠ some (id', token)) :
    ({ x with files := Function.update x.files i c } : Fleet ι).Sound p := by
  have hheld : ∀ a, ({ x with files := Function.update x.files i c } : Fleet ι).held a =
      if a = .inl i then c.map (fun c => (c.nodeID, c.token)) else x.held a := by
    intro a
    cases a with
    | inl j => by_cases hj : j = i <;> simp [Fleet.held, hj]
    | inr l => rfl
  obtain ⟨hhanded, hapart⟩ := h.hold { x with files := Function.update x.files i c } rfl hheld hv
  refine ⟨h.tracks, h.named, hhanded, hapart, h.setups, fun j c' hc' => ?_⟩
  by_cases hj : j = i
  · apply hinterval c'
    simpa [hj] using hc'
  · apply h.files j c'
    simpa [hj] using hc'

variable {parse : String → Option Agent.ServerURL}

theorem Fleet.Sound.redeem (h : x.Sound p) (hinj : Function.Injective p.hash)
    (hne : ∀ s, p.hash s ≠ "") {k : ℕ} {s : Setup ι} (hs : x.setups k = some s) {d : Draw}
    (hfresh : d.first.text ∉ secrets x.log) :
    ((x.serve p (d, .enroll s.code)).withSetup k
      (some { s with stage := stageOf (Hub.enroll p d x.store s.code) })).Sound p := by
  have hserved : (x.serve p (d, .enroll s.code)).Sound p := by
    apply h.serve hinj hne
    intro t ht
    rwa [List.mem_singleton.mp ht]
  apply hserved.withSetup
  · intro s' hs'
    cases hs'
    exact h.setups k s hs
  · intro id token hreply
    cases he : Hub.enroll p d x.store s.code with
    | none =>
      rw [he] at hreply
      cases hreply
    | some result =>
      obtain ⟨id', token', st'⟩ := result
      rw [he] at hreply
      cases hreply
      constructor
      · exact ⟨s.code, by simp [Fleet.serve_log, performed, he]⟩
      · intro b id' _ hb
        apply hfresh
        rw [← (enroll_ok he).1]
        exact h.held_secret hb

theorem Fleet.Sound.finish (h : x.Sound p) {k : ℕ} {s : Setup ι} (hs : x.setups k = some s)
    {id token : String} (hstage : s.stage = .replied id token) :
    ({ x.withSetup k none with
      files := Function.update x.files s.machine
        (some { s.config with nodeID := id, token := token }) } : Fleet ι).Sound p := by
  have hheld : x.held (.inr k) = some (id, token) := by
    simp [Fleet.held, hs, Setup.held, hstage]
  have hgone : (x.withSetup k none).Sound p :=
    h.withoutReply k (fun s' hs' => by cases hs') rfl
  have hnone : ∀ b id', (x.withSetup k none).held b ≠ some (id', token) := by
    intro b id' hb
    cases b with
    | inl i =>
      have heq := h.apart (.inl i) (.inr k) id' id token hb hheld
      cases heq
    | inr l =>
      by_cases hl : l = k
      · simp [Fleet.held, Fleet.withSetup, hl] at hb
      · have hb' : x.held (.inr l) = some (id', token) := by
          simpa [Fleet.held, Fleet.withSetup, hl] using hb
        exact hl (Sum.inr.inj (h.apart _ _ _ _ token hb' hheld))
  apply hgone.withFile
  · intro c' hc'
    cases hc'
    exact h.setups k s hs
  · rintro id' token' heq
    cases heq
    exact ⟨h.handed _ _ _ hheld, fun b id' _ => hnone b id'⟩

theorem Fleet.Sound.step (h : x.Sound p) (hinj : Function.Injective p.hash)
    (hne : ∀ s, p.hash s ≠ "") (t : Turn ι) (hfresh : ∀ u ∈ t.draws, u.text ∉ secrets x.log) :
    (x.step p parse t).Sound p := by
  cases t with
  | start k i server interval code =>
    cases hk : x.setups k with
    | some s => simpa only [Fleet.step, hk] using h
    | none =>
      cases hc : Agent.prepare parse (x.files i) server interval with
      | error e => simpa only [Fleet.step, hk, hc] using h
      | ok config =>
        simp only [Fleet.step, hk, hc]
        apply h.withoutReply k _ rfl
        intro s' hs'
        cases hs'
        exact (Agent.prepare_ok hc).2
  | redeem k d =>
    cases hk : x.setups k with
    | none => simpa only [Fleet.step, hk] using h
    | some s =>
      cases hstage : s.stage with
      | posted =>
        simp only [Fleet.step, hk, hstage]
        exact h.redeem hinj hne hk (hfresh _ (by simp [Turn.draws]))
      | abandoned =>
        simp only [Fleet.step, hk, hstage]
        have hserved : (x.serve p (d, .enroll s.code)).Sound p := h.serve hinj hne hfresh
        exact hserved.withoutReply k (fun s' hs' => by cases hs') rfl
      | replied id token => simpa only [Fleet.step, hk, hstage] using h
      | refused => simpa only [Fleet.step, hk, hstage] using h
  | finish k =>
    cases hk : x.setups k with
    | none => simpa only [Fleet.step, hk] using h
    | some s =>
      cases hstage : s.stage with
      | posted | abandoned => simpa only [Fleet.step, hk, hstage] using h
      | replied id token =>
        simp only [Fleet.step, hk, hstage]
        exact h.finish hk hstage
      | refused =>
        simp only [Fleet.step, hk, hstage]
        exact h.withoutReply k (fun s' hs' => by cases hs') rfl
  | lose k =>
    cases hk : x.setups k with
    | none => simpa only [Fleet.step, hk] using h
    | some s =>
      cases hstage : s.stage with
      | posted =>
        simp only [Fleet.step, hk, hstage]
        apply h.withoutReply k _ rfl
        intro s' hs'
        cases hs'
        exact h.setups k s hk
      | abandoned | replied | refused =>
        simp only [Fleet.step, hk, hstage]
        exact h.withoutReply k (fun s' hs' => by cases hs') rfl
  | remove i => exact h.withFile i (fun c' hc' => by cases hc') (fun id token hc => by cases hc)
  | manage r => exact h.serve hinj hne hfresh

theorem Fleet.step_log (x : Fleet ι) (t : Turn ι) : (x.step p parse t).log = x.log ∨
    ∃ r, Access.draws r = t.draws ∧
      (x.step p parse t).log = (performed p x.store r).toList ++ x.log := by
  cases t with
  | start k i server interval code =>
    cases hk : x.setups k with
    | some s => simp [Fleet.step, hk]
    | none => cases hc : Agent.prepare parse (x.files i) server interval <;>
        simp [Fleet.step, hk, hc, Fleet.withSetup]
  | redeem k d =>
    cases hk : x.setups k with
    | none => simp [Fleet.step, hk]
    | some s =>
      cases hstage : s.stage with
      | posted | abandoned =>
        right
        exact ⟨(d, .enroll s.code), rfl, by simp [Fleet.step, hk, hstage, Fleet.withSetup, serve_log]⟩
      | replied | refused => simp [Fleet.step, hk, hstage]
  | finish k =>
    cases hk : x.setups k with
    | none => simp [Fleet.step, hk]
    | some s => cases hstage : s.stage <;> simp [Fleet.step, hk, hstage, Fleet.withSetup]
  | lose k =>
    cases hk : x.setups k with
    | none => simp [Fleet.step, hk]
    | some s => cases hstage : s.stage <;> simp [Fleet.step, hk, hstage, Fleet.withSetup]
  | remove i => exact .inl rfl
  | manage r => exact .inr ⟨r, rfl, rfl⟩

theorem Fleet.secrets_step (x : Fleet ι) (t : Turn ι) {later : List String}
    (h : (secrets x.log ++ (t.draws.map Token.text ++ later)).Nodup) :
    (secrets (x.step p parse t).log ++ later).Nodup := by
  have hcase : (x.step p parse t).log = x.log ∨ ∃ r, Access.draws r = t.draws ∧
      (x.step p parse t).log = (performed p x.store r).toList ++ x.log := x.step_log t
  rcases hcase with hlog | ⟨r, hdraws, hlog⟩
  · rw [hlog]
    exact h.sublist (List.Sublist.append_left (List.sublist_append_right _ _) _)
  · rw [hlog]
    apply secrets_serve x.store x.log r
    rwa [hdraws]

/-- The fleet is sound after any turns, if no token is drawn twice. -/
theorem sound_run (hinj : Function.Injective p.hash) (hne : ∀ s, p.hash s ≠ "") (st : Store)
    {turns : List (Turn ι)} (hdraws : ((turns.flatMap Turn.draws).map Token.text).Nodup) :
    ((newFleet st).run p parse turns).Sound p := by
  have hnew : (newFleet st : Fleet ι).Sound p := {
    tracks := {
      rows := fun n hn => absurd hn List.not_mem_nil
      nodes := fun id op h => by cases h
      distinct := List.nodup_nil
      whole := fun k hk => absurd hk List.not_mem_nil
      once := List.nodup_nil
      redeemed := fun code hcode => absurd hcode List.not_mem_nil }
    named := fun e he => absurd he List.not_mem_nil
    handed := fun a id token ha => by cases a <;> cases ha
    apart := fun a b id id' token ha hb => by cases a <;> cases ha
    setups := fun k s hs => by cases hs
    files := fun i c hc => by cases hc }
  have hrun := foldl_invariant (Fleet.step p parse)
    (fun rest x => x.Sound p ∧ (secrets x.log ++ (rest.flatMap Turn.draws).map Token.text).Nodup)
    (fun t rest x hx => ?_) turns (newFleet st) ⟨hnew, hdraws⟩
  · exact hrun.1
  · obtain ⟨hsound, hnodup⟩ := hx
    rw [List.flatMap_cons, List.map_append] at hnodup
    refine ⟨hsound.step hinj hne t (fun u hu hmem => ?_), x.secrets_step t hnodup⟩
    refine (List.nodup_append.mp hnodup).2.2 u.text hmem u.text (List.mem_append_left _ ?_) rfl
    exact List.mem_map_of_mem hu

omit [DecidableEq ι] in
/-- The hub takes uploads with a saved token for the saved node, and does so as long as the
enrollment that returned the token is the last operation on this node. -/
theorem Fleet.Sound.uploadsAs (h : x.Sound p) (hinj : Function.Injective p.hash)
    (hne : ∀ s, p.hash s ≠ "") {i : ι} {c : Agent.ConfigFile} (hc : x.files i = some c)
    (id : String) : Access.uploadsAs p x.store c.token = some id ↔
      id = c.nodeID ∧ ∃ code, lastOn x.log c.nodeID = some (.enrolled code c.token) := by
  obtain ⟨code, hcode⟩ := h.handed (.inl i) c.nodeID c.token (by simp [held, hc])
  rw [h.tracks.uploadsAs_iff hinj hne]
  constructor
  · rintro ⟨code', hlast⟩
    have heq := eq_of_secret h.tracks.distinct (mem_of_lastOn hlast) hcode rfl rfl
    cases heq
    exact ⟨rfl, code, hlast⟩
  · rintro ⟨rfl, hlast⟩
    exact hlast

omit [DecidableEq ι] in
theorem Fleet.Sound.load (h : x.Sound p) {i : ι} {c : Agent.ConfigFile} (hc : x.files i = some c) :
    Agent.load (some c) = .ok c := by
  have hheld : x.held (.inl i) = some (c.nodeID, c.token) := by simp [held, hc]
  obtain ⟨code, hcode⟩ := h.handed (.inl i) c.nodeID c.token hheld
  have hsize : len c.token = 64 := h.tracks.whole _ (h.held_secret hheld)
  have htoken : c.token ≠ "" := by
    intro hempty
    rw [hempty] at hsize
    exact absurd hsize (by decide)
  obtain ⟨hlo, hhi⟩ := h.files i c hc
  exact Agent.load_some htoken (h.named _ hcode) hlo hhi

end Steps

/-- Through all setups, lost messages and requests about nodes, a saved configuration is good for
its node until the next operation on it, and for no other machine. -/
theorem machines_exclusive {ι : Type*} [DecidableEq ι] (p : Platform)
    (parse : String → Option Agent.ServerURL) (st : Store) (turns : List (Turn ι))
    (hinj : Function.Injective p.hash) (hne : ∀ s, p.hash s ≠ "")
    (hdraws : ((turns.flatMap Turn.draws).map Token.text).Nodup) :
    (∀ i c, ((newFleet st).run p parse turns).files i = some c →
      Agent.load (some c) = .ok c ∧
      ∀ id, uploadsAs p ((newFleet st).run p parse turns).store c.token = some id ↔
        id = c.nodeID ∧ ∃ code,
          lastOn ((newFleet st).run p parse turns).log c.nodeID = some (.enrolled code c.token)) ∧
    (∀ i j c c' id, ((newFleet st).run p parse turns).files i = some c →
      ((newFleet st).run p parse turns).files j = some c' →
      uploadsAs p ((newFleet st).run p parse turns).store c.token = some id →
      uploadsAs p ((newFleet st).run p parse turns).store c'.token = some id → i = j) ∧
    (redeemedCodes ((newFleet st).run p parse turns).log).Nodup := by
  have hsound : ((newFleet st).run p parse turns).Sound p := sound_run hinj hne st hdraws
  generalize (newFleet st).run p parse turns = x at hsound
  refine ⟨fun i c hc => ⟨hsound.load hc, hsound.uploadsAs hinj hne hc⟩,
    fun i j c c' id hi hj hup hup' => ?_, hsound.tracks.once⟩
  · have hlast := (hsound.tracks.uploadsAs_iff hinj hne c.token id).mp hup
    have hlast' := (hsound.tracks.uploadsAs_iff hinj hne c'.token id).mp hup'
    obtain ⟨code, hlast⟩ := hlast
    obtain ⟨code', hlast'⟩ := hlast'
    obtain ⟨-, htoken⟩ : code = code' ∧ c.token = c'.token := by
      simpa using hlast.symm.trans hlast'
    have hi' : x.held (.inl i) = some (c.nodeID, c.token) := by simp [Fleet.held, hi]
    have hj' : x.held (.inl j) = some (c'.nodeID, c.token) := by simp [Fleet.held, hj, htoken]
    exact Sum.inl.inj (hsound.apart _ _ _ _ _ hi' hj')

/-- The response to the first setup is lost, a second code sets the machine up. -/
def secondCode : List (Turn ℕ) :=
  [.manage (⟨1700000000000, .replicate 'a', .replicate 'b', fun _ => none⟩, .create "n1"),
    .start 0 7 "http://hub:8080/" 5 (Token.replicate 'b').text,
    .redeem 0 ⟨1700000001000, .replicate 'c', .replicate '0', fun _ => none⟩,
    .lose 0,
    .manage (⟨1700000002000, .replicate 'd', .replicate '0', fun _ => none⟩,
      .issueCode "aaaaaaaaaaaaaaaaaaaaaaaa"),
    .start 1 7 "http://hub:8080/" 5 (Token.replicate 'd').text,
    .redeem 1 ⟨1700000003000, .replicate 'e', .replicate '0', fun _ => none⟩,
    .finish 1]

def hubURL (_ : String) : Option Agent.ServerURL := some ⟨"http", "hub:8080", false, "", ""⟩

theorem machines_exclusive_second :
    uploadsAs hashing ((newFleet (freshStore Table.empty)).run hashing hubURL secondCode).store
      (Token.replicate 'e').text = some "aaaaaaaaaaaaaaaaaaaaaaaa" := by
  have h := machines_exclusive hashing hubURL (freshStore Table.empty) secondCode digest_injective
    digest_nonempty (by decide +kernel)
  have hfile : ((newFleet (freshStore Table.empty)).run hashing hubURL secondCode).files 7 =
      some ⟨"http://hub:8080", "aaaaaaaaaaaaaaaaaaaaaaaa", (Token.replicate 'e').text, 5⟩ := by
    decide +kernel
  exact ((h.1 7 _ hfile).2 _).mpr ⟨rfl, (Token.replicate 'd').text, by decide +kernel⟩

end CardScope.Access

import CardScope.Hub.Enrollment
import CardScope.Ingestion.Effects

/-! # The credentials of a node

Creation, codes, revocation, enrollment, configuration and uploads, one after the other. What a
code or a token is good for is told by the last operation on its node, which the history of
the operations records next to the store.
-/

namespace CardScope.Access
open Library Model Hub Ingestion

/-- A request about nodes, once its body is decoded. -/
inductive NodeRequest where
  | create (name : String)
  | issueCode (id : String)
  | revoke (id : String)
  | configure (id : String) (settings : NodeSettings)
  | enroll (code : String)
  | snapshots (credential : String) (s : Snapshot)

/-- What was done to a node: it was created or given a code, revoked, or enrolled by a code. -/
inductive Operation where
  | created (code : String) (atMs : ℤ)
  | issued (code : String) (atMs : ℤ)
  | revoked
  | enrolled (code token : String)
deriving DecidableEq

/-- Operations with their nodes, the last one first. -/
abbrev History := List (String × Operation)

def lastOn (log : History) (id : String) : Option Operation :=
  (log.find? (fun e => e.1 = id)).map Prod.snd

def draws : Draw × NodeRequest → List Token
  | (d, .create _) => [d.first, d.second]
  | (d, .issueCode _) => [d.first]
  | (d, .enroll _) => [d.first]
  | _ => []

/-- The store after a request; a request that fails leaves it as it is. -/
def serve (p : Platform) (st : Store) : Draw × NodeRequest → Store
  | (d, .create name) => match create p d st name with
    | .ok (_, st') => st'
    | .error _ => st
  | (d, .issueCode id) => match issueCode p d st id with
    | .ok (_, st') => st'
    | .error _ => st
  | (_, .revoke id) => match revoke st id with
    | .ok st' => st'
    | .error _ => st
  | (_, .configure id settings) => match configure p st id settings with
    | .ok st' => st'
    | .error _ => st
  | (d, .enroll code) => match Hub.enroll p d st code with
    | some (_, _, st') => st'
    | none => st
  | (d, .snapshots credential s) => match authenticate p st credential with
    | some n => if s.nodeID = n.id then ingested d.now st s else st
    | none => st

def performed (p : Platform) (st : Store) : Draw × NodeRequest → Option (String × Operation)
  | (d, .create name) => match create p d st name with
    | .ok (e, _) => some (e.nodeID, .created e.code d.now)
    | .error _ => none
  | (d, .issueCode id) => match issueCode p d st id with
    | .ok (code, _) => some (id, .issued code d.now)
    | .error _ => none
  | (_, .revoke id) => match revoke st id with
    | .ok _ => some (id, .revoked)
    | .error _ => none
  | (d, .enroll code) => match Hub.enroll p d st code with
    | some (id, token, _) => some (id, .enrolled code token)
    | none => none
  | _ => none

def serveStep (p : Platform) (x : Store × History) (r : Draw × NodeRequest) : Store × History :=
  (serve p x.1 r, (performed p x.1 r).toList ++ x.2)

/-- The store and the history after requests to a hub that has no nodes yet. -/
def served (p : Platform) (st : Store) (requests : List (Draw × NodeRequest)) : Store × History :=
  requests.foldl (serveStep p) ({ st with nodes := Table.empty }, [])

/-- The node that an upload with this credential is taken for. -/
def uploadsAs (p : Platform) (st : Store) (credential : String) : Option String :=
  (authenticate p st credential).map NodeRow.id

/-- The node that an enrollment with this code at this time succeeds for. -/
def enrollsAs (p : Platform) (d : Draw) (st : Store) (code : String) : Option String :=
  (Hub.enroll p d st code).map Prod.fst

/-- The credential columns of the node are those of the operation. -/
def Shows (p : Platform) (n : NodeRow) : Operation → Prop
  | .created code atMs | .issued code atMs =>
    n.tokenHash = "" ∧ n.codeHash = p.hash code ∧ n.codeExpires = codeExpiry atMs
  | .revoked => n.tokenHash = "" ∧ n.codeHash = "" ∧ n.codeExpires = 0
  | .enrolled _ token => n.tokenHash = p.hash token ∧ n.codeHash = "" ∧ n.codeExpires = 0

def Operation.secret : Operation → Option String
  | .created code _ | .issued code _ => some code
  | .revoked => none
  | .enrolled _ token => some token

def secrets (log : History) : List String := log.filterMap (fun e => e.2.secret)

def Operation.redeems : Operation → Option String
  | .enrolled code _ => some code
  | _ => none

def redeemedCodes (log : History) : List String := log.filterMap (fun e => e.2.redeems)

/-- The operation gives the node this code. -/
def Operation.Gives (code : String) : Operation → Prop
  | .created k _ | .issued k _ => k = code
  | _ => False

/-- The rows of all nodes show the last operation on them, no secret was handed out twice, no code
redeemed twice, and a redeemed code is not the last thing given to any node. -/
structure Tracks (p : Platform) (st : Store) (log : History) : Prop where
  rows : ∀ n ∈ st.nodes, ∃ op, lastOn log n.id = some op ∧ Shows p n op
  nodes : ∀ id op, lastOn log id = some op → st.nodes.HasKey id
  distinct : (secrets log).Nodup
  whole : ∀ k ∈ secrets log, len k = 64
  once : (redeemedCodes log).Nodup
  redeemed : ∀ code ∈ redeemedCodes log,
    code ∈ secrets log ∧ ∀ id op, lastOn log id = some op → ¬ op.Gives code

section Log

variable {log : History} {id : String} {op : Operation}

theorem lastOn_cons (id : String) (op : Operation) (log : History) (id' : String) :
    lastOn ((id, op) :: log) id' = if id = id' then some op else lastOn log id' := by
  unfold lastOn
  rw [List.find?_cons]
  by_cases h : id = id' <;> simp [h]

theorem mem_of_lastOn (h : lastOn log id = some op) : (id, op) ∈ log := by
  obtain ⟨e, he, rfl⟩ := Option.map_eq_some_iff.mp h
  have hid : e.1 = id := by simpa using List.find?_some he
  exact hid ▸ List.mem_of_find?_eq_some he

theorem secret_mem (h : (id, op) ∈ log) {k : String} (hk : op.secret = some k) : k ∈ secrets log :=
  List.mem_filterMap.mpr ⟨_, h, hk⟩

theorem eq_of_secret (hd : (secrets log).Nodup) {e e' : String × Operation} (he : e ∈ log)
    (he' : e' ∈ log) {k : String} (hk : e.2.secret = some k) (hk' : e'.2.secret = some k) :
    e = e' := by
  induction log with
  | nil => exact absurd he List.not_mem_nil
  | cons x log ih =>
    have hrest : (secrets log).Nodup := by
      refine List.Nodup.sublist ?_ hd
      exact (List.sublist_cons_self x log).filterMap _
    have hhead : ∀ y ∈ log, x.2.secret = some k → y.2.secret ≠ some k := by
      intro y hy hx hyk
      rw [secrets, List.filterMap_cons, hx, List.nodup_cons] at hd
      exact hd.1 (List.mem_filterMap.mpr ⟨y, hy, hyk⟩)
    rcases List.mem_cons.mp he with rfl | hel
    · rcases List.mem_cons.mp he' with rfl | hel'
      · rfl
      · exact absurd hk' (hhead e' hel' hk)
    · rcases List.mem_cons.mp he' with rfl | hel'
      · exact absurd hk (hhead e hel hk')
      · exact ih hrest hel hel'

end Log

section Lookup

variable {p : Platform} {st : Store} {log : History} {n : NodeRow} {op : Operation}

theorem Shows.token_iff (h : Shows p n op) (hinj : Function.Injective p.hash)
    (hne : ∀ s, p.hash s ≠ "") (credential : String) :
    n.tokenHash = p.hash credential ↔ ∃ code, op = .enrolled code credential := by
  cases op with
  | created code atMs =>
    simp only [Shows] at h
    simp [h.1, (hne credential).symm]
  | issued code atMs =>
    simp only [Shows] at h
    simp [h.1, (hne credential).symm]
  | revoked =>
    simp only [Shows] at h
    simp [h.1, (hne credential).symm]
  | enrolled code token =>
    simp only [Shows] at h
    rw [h.1, hinj.eq_iff]
    simp

theorem Shows.code_iff (h : Shows p n op) (hinj : Function.Injective p.hash)
    (hne : ∀ s, p.hash s ≠ "") (code : String) (now : ℤ) :
    n.codeHash = p.hash code ∧ n.codeExpires > now ↔
      ∃ atMs, now < codeExpiry atMs ∧ (op = .created code atMs ∨ op = .issued code atMs) := by
  cases op with
  | created k atMs =>
    simp only [Shows] at h
    rw [h.2.1, h.2.2, hinj.eq_iff]
    simp [and_comm]
  | issued k atMs =>
    simp only [Shows] at h
    rw [h.2.1, h.2.2, hinj.eq_iff]
    simp [and_comm]
  | revoked =>
    simp only [Shows] at h
    simp [h.2.1, (hne code).symm]
  | enrolled k token =>
    simp only [Shows] at h
    simp [h.2.1, (hne code).symm]

/-- A search for the row whose last operation handed out a secret finds the node of that
operation. -/
theorem Tracks.find?_iff (h : Tracks p st log) (test : NodeRow → Bool) (wanted : Operation → Prop)
    (secret : String) (hsecret : ∀ op, wanted op → op.secret = some secret)
    (htest : ∀ n op, Shows p n op → (test n ↔ wanted op)) (id : String) :
    (st.nodes.rows.find? test).map NodeRow.id = some id ↔
      ∃ op, lastOn log id = some op ∧ wanted op := by
  constructor
  · intro hfound
    obtain ⟨n, hn, rfl⟩ := Option.map_eq_some_iff.mp hfound
    obtain ⟨op, hop, hshows⟩ := h.rows n (List.mem_of_find?_eq_some hn)
    exact ⟨op, hop, (htest n op hshows).mp (List.find?_some hn)⟩
  · rintro ⟨op, hop, hwanted⟩
    obtain ⟨n, hn, rfl⟩ := h.nodes id op hop
    obtain ⟨op', hop', hshows⟩ := h.rows n hn
    obtain rfl : op = op' := Option.some.inj (hop.symm.trans hop')
    cases hf : st.nodes.rows.find? test with
    | none => exact absurd ((htest n op hshows).mpr hwanted) (List.find?_eq_none.mp hf n hn)
    | some m =>
      -- the row found shows the same operation, because a secret is handed out once
      obtain ⟨other, hother, hshows'⟩ := h.rows m (List.mem_of_find?_eq_some hf)
      have hwanted' : wanted other := (htest m other hshows').mp (List.find?_some hf)
      have heq := eq_of_secret h.distinct (mem_of_lastOn hop) (mem_of_lastOn hother)
        (hsecret op hwanted) (hsecret other hwanted')
      rw [Option.map_some, (Prod.mk.inj heq).1]

theorem Tracks.len_secret (h : Tracks p st log) {id k : String} (hop : lastOn log id = some op)
    (hk : op.secret = some k) : len k = 64 :=
  h.whole k (secret_mem (mem_of_lastOn hop) hk)

/-- An upload is taken for the node whose last operation was the enrollment that returned the
token. -/
theorem Tracks.uploadsAs_iff (h : Tracks p st log) (hinj : Function.Injective p.hash)
    (hne : ∀ s, p.hash s ≠ "") (credential id : String) :
    uploadsAs p st credential = some id ↔
      ∃ code, lastOn log id = some (.enrolled code credential) := by
  have hfind := h.find?_iff (fun n => n.tokenHash = p.hash credential)
    (fun op => ∃ code, op = .enrolled code credential) credential
    (by rintro _ ⟨code, rfl⟩; rfl)
    (fun n op hshows => decide_eq_true_iff.trans (hshows.token_iff hinj hne credential)) id
  unfold uploadsAs authenticate
  by_cases hsize : len credential = 64
  · rw [if_pos hsize, nodeOfToken, hfind]
    simp
  · rw [if_neg hsize]
    apply iff_of_false (by simp)
    rintro ⟨code, hlast⟩
    exact hsize (h.len_secret hlast rfl)

/-- An enrollment succeeds for the node whose last operation gave it the code, until the code
expires. -/
theorem Tracks.enrollsAs_iff (h : Tracks p st log) (hinj : Function.Injective p.hash)
    (hne : ∀ s, p.hash s ≠ "") (d : Draw) (code id : String) :
    enrollsAs p d st code = some id ↔ ∃ atMs, d.now < codeExpiry atMs ∧
      (lastOn log id = some (.created code atMs) ∨ lastOn log id = some (.issued code atMs)) := by
  have hfind := h.find?_iff (fun n => n.codeHash = p.hash code && n.codeExpires > d.now)
    (fun op => ∃ atMs, d.now < codeExpiry atMs ∧
      (op = .created code atMs ∨ op = .issued code atMs)) code
    (by rintro _ ⟨atMs, -, rfl | rfl⟩ <;> rfl)
    (fun n op hshows => by simpa using hshows.code_iff hinj hne code d.now) id
  have hfst : (redeem p d st code).map Prod.fst = (nodeOfCode p d.now st code).map NodeRow.id := by
    unfold redeem
    cases nodeOfCode p d.now st code <;> rfl
  unfold enrollsAs Hub.enroll
  by_cases hsize : len code = 64
  · rw [if_pos hsize, hfst, nodeOfCode, hfind]
    constructor
    · rintro ⟨op, hop, atMs, hlt, rfl | rfl⟩
      · exact ⟨atMs, hlt, .inl hop⟩
      · exact ⟨atMs, hlt, .inr hop⟩
    · rintro ⟨atMs, hlt, hop | hop⟩
      · exact ⟨_, hop, atMs, hlt, .inl rfl⟩
      · exact ⟨_, hop, atMs, hlt, .inr rfl⟩
  · rw [if_neg hsize]
    apply iff_of_false (by simp)
    rintro ⟨atMs, -, hlast | hlast⟩
    · exact hsize (h.len_secret hlast rfl)
    · exact hsize (h.len_secret hlast rfl)

end Lookup

section Requests

variable {p : Platform} {st st' : Store} {log : History} {id : String} {op : Operation}

def SameCredentials (n n' : NodeRow) : Prop :=
  n'.id = n.id ∧ n'.tokenHash = n.tokenHash ∧ n'.codeHash = n.codeHash ∧
    n'.codeExpires = n.codeExpires

theorem Shows.congr {n n' : NodeRow} (h : Shows p n op) (hs : SameCredentials n n') :
    Shows p n' op := by
  obtain ⟨-, htoken, hcode, hexpires⟩ := hs
  cases op <;> simpa only [Shows, htoken, hcode, hexpires] using h

def KeepsCredentials (st st' : Store) : Prop :=
  (∀ n' ∈ st'.nodes, ∃ n ∈ st.nodes, SameCredentials n n') ∧
    ∀ id, st.nodes.HasKey id → st'.nodes.HasKey id

theorem KeepsCredentials.refl (st : Store) : KeepsCredentials st st :=
  ⟨fun n hn => ⟨n, hn, rfl, rfl, rfl, rfl⟩, fun _ h => h⟩

theorem KeepsCredentials.trans {st₁ st₂ st₃ : Store} (h₁ : KeepsCredentials st₁ st₂)
    (h₂ : KeepsCredentials st₂ st₃) : KeepsCredentials st₁ st₃ := by
  refine ⟨fun n₃ hn₃ => ?_, fun id h => h₂.2 id (h₁.2 id h)⟩
  obtain ⟨n₂, hn₂, hid₂, htoken₂, hcode₂, hexpires₂⟩ := h₂.1 n₃ hn₃
  obtain ⟨n₁, hn₁, hid₁, htoken₁, hcode₁, hexpires₁⟩ := h₁.1 n₂ hn₂
  exact ⟨n₁, hn₁, hid₂.trans hid₁, htoken₂.trans htoken₁, hcode₂.trans hcode₁,
    hexpires₂.trans hexpires₁⟩

theorem keepsCredentials_modify (f : NodeRow → NodeRow) (hf : ∀ n, (f n).id = n.id)
    (hsame : ∀ n, SameCredentials n (f n)) (hn : st'.nodes = st.nodes.modify id f hf) :
    KeepsCredentials st st' := by
  refine ⟨fun n' hn' => ?_, fun i hi => ?_⟩
  · rw [hn, Table.mem_modify] at hn'
    obtain ⟨n, hn, rfl⟩ := hn'
    refine ⟨n, hn, ?_⟩
    split_ifs
    · exact hsame n
    · exact ⟨rfl, rfl, rfl, rfl⟩
  · rw [hn]
    exact Table.hasKey_modify.mpr hi

theorem Tracks.keep (h : Tracks p st log) (hk : KeepsCredentials st st') : Tracks p st' log := by
  refine ⟨fun n' hn' => ?_, fun i o hlast => hk.2 i (h.nodes i o hlast), h.distinct, h.whole,
    h.once, h.redeemed⟩
  obtain ⟨n, hn, hsame⟩ := hk.1 n' hn'
  obtain ⟨op, hop, hshows⟩ := h.rows n hn
  exact ⟨op, by rw [hsame.1]; exact hop, hshows.congr hsame⟩

theorem keepsCredentials_ingested (now : ℤ) (st : Store) (s : Snapshot) :
    KeepsCredentials st (ingested now st s) := by
  rcases ingested_cases now st s with h | ⟨node, full, tx, h⟩
  · rw [h]
    exact KeepsCredentials.refl st
  · have hcards : KeepsCredentials st tx := by
      have hnodes := h.nodes_tx
      exact ⟨fun n hn => ⟨n, hnodes ▸ hn, rfl, rfl, rfl, rfl⟩, fun id hid => hnodes ▸ hid⟩
    have hlive : KeepsCredentials tx (refreshLive full node tx) := by
      unfold refreshLive
      split_ifs
      · exact keepsCredentials_modify (NodeRow.setLive _) (fun _ => rfl)
          (fun n => ⟨rfl, rfl, rfl, rfl⟩) rfl
      · exact KeepsCredentials.refl tx
    rw [h.result]
    apply (hcards.trans hlive).trans
    unfold refreshReceived
    split_ifs
    · exact keepsCredentials_modify (NodeRow.setReceived now) (fun _ => rfl)
        (fun n => ⟨rfl, rfl, rfl, rfl⟩) rfl
    · exact KeepsCredentials.refl _

/-- What an operation needs to be recorded: its secret is new, and a code that it redeems was the
last thing given to its node and to no other. -/
structure Recordable (log : History) (id : String) (op : Operation) : Prop where
  fresh : ∀ k, op.secret = some k → k ∉ secrets log ∧ len k = 64
  redeems : ∀ code, op.redeems = some code → code ∈ secrets log ∧ code ∉ redeemedCodes log ∧
    ∀ id' op', id' ≠ id → lastOn log id' = some op' → ¬ op'.Gives code

theorem secrets_cons (id : String) (op : Operation) (log : History) :
    secrets ((id, op) :: log) = op.secret.toList ++ secrets log := by
  unfold secrets
  rw [List.filterMap_cons]
  cases op.secret <;> rfl

theorem redeemedCodes_cons (id : String) (op : Operation) (log : History) :
    redeemedCodes ((id, op) :: log) = op.redeems.toList ++ redeemedCodes log := by
  unfold redeemedCodes
  rw [List.filterMap_cons]
  cases op.redeems <;> rfl

theorem not_gives_of_redeems {code : String} (h : op.redeems = some code) (k : String) :
    ¬ op.Gives k := by
  cases op <;> simp [Operation.redeems, Operation.Gives] at h ⊢

theorem secret_of_gives {code : String} (h : op.Gives code) : op.secret = some code := by
  cases op with
  | created k atMs => exact congrArg some h
  | issued k atMs => exact congrArg some h
  | revoked => exact h.elim
  | enrolled k token => exact h.elim

theorem Tracks.record (h : Tracks p st log) (hr : Recordable log id op)
    (hrows : ∀ n ∈ st'.nodes, n.id = id ∧ Shows p n op ∨ n.id ≠ id ∧ n ∈ st.nodes)
    (hnodes : ∀ i, i = id ∨ st.nodes.HasKey i → st'.nodes.HasKey i) :
    Tracks p st' ((id, op) :: log) := by
  have hold : ∀ k ∈ secrets log, k ∈ secrets ((id, op) :: log) := by
    intro k hk
    rw [secrets_cons]
    exact List.mem_append_right _ hk
  constructor
  · intro n hn
    rcases hrows n hn with ⟨rfl, hshows⟩ | ⟨hne, hn⟩
    · exact ⟨op, by rw [lastOn_cons, if_pos rfl], hshows⟩
    · obtain ⟨o, ho, hshows⟩ := h.rows n hn
      exact ⟨o, by rw [lastOn_cons, if_neg (Ne.symm hne), ho], hshows⟩
  · intro i o hlast
    rw [lastOn_cons] at hlast
    split_ifs at hlast with hi
    · exact hnodes i (.inl hi.symm)
    · exact hnodes i (.inr (h.nodes i o hlast))
  · rw [secrets_cons]
    cases hs : op.secret with
    | none => exact h.distinct
    | some k => exact List.nodup_cons.mpr ⟨(hr.fresh k hs).1, h.distinct⟩
  · intro k hk
    rw [secrets_cons, List.mem_append, Option.mem_toList] at hk
    rcases hk with hk | hk
    · exact (hr.fresh k hk).2
    · exact h.whole k hk
  · rw [redeemedCodes_cons]
    cases hs : op.redeems with
    | none => exact h.once
    | some code => exact List.nodup_cons.mpr ⟨(hr.redeems code hs).2.1, h.once⟩
  · intro code hmem
    rw [redeemedCodes_cons, List.mem_append, Option.mem_toList] at hmem
    rcases hmem with hmem | hmem
    · obtain ⟨hcode, -, hothers⟩ := hr.redeems code hmem
      refine ⟨hold code hcode, fun id' op' hlast => ?_⟩
      rw [lastOn_cons] at hlast
      split_ifs at hlast with hi
      · cases hlast
        exact not_gives_of_redeems hmem code
      · exact hothers id' op' (Ne.symm hi) hlast
    · obtain ⟨hcode, hothers⟩ := h.redeemed code hmem
      refine ⟨hold code hcode, fun id' op' hlast hgives => ?_⟩
      rw [lastOn_cons] at hlast
      split_ifs at hlast with hi
      · cases hlast
        exact (hr.fresh code (secret_of_gives hgives)).1 hcode
      · exact hothers id' op' hlast hgives

theorem Tracks.modify (h : Tracks p st log) (hid : st.nodes.HasKey id) (hr : Recordable log id op)
    (f : NodeRow → NodeRow) (hf : ∀ n, (f n).id = n.id) (hshows : ∀ n, Shows p (f n) op)
    (hn : st'.nodes = st.nodes.modify id f hf) : Tracks p st' ((id, op) :: log) := by
  refine h.record hr (fun n' hn' => ?_) (fun i hi => ?_)
  · rw [hn, Table.mem_modify] at hn'
    obtain ⟨n, hn, rfl⟩ := hn'
    split_ifs with hni
    · exact .inl ⟨(hf n).trans hni, hshows n⟩
    · exact .inr ⟨hni, hn⟩
  · rw [hn]
    rcases hi with rfl | hi
    · exact Table.hasKey_modify.mpr hid
    · exact Table.hasKey_modify.mpr hi

theorem updateRow_ok {f : NodeRow → NodeRow} {hf : ∀ n, (f n).id = n.id}
    (h : updateRow st id f hf = .ok st') :
    st.nodes.HasKey id ∧ st'.nodes = st.nodes.modify id f hf := by
  unfold updateRow at h
  split_ifs at h with hid
  cases h
  exact ⟨hid, rfl⟩

variable {d : Draw} {name code : String}

theorem create_ok {e : NodeEnrollment} (h : create p d st name = .ok (e, st')) :
    e = ⟨nodeIDOf d.first, d.second.text⟩ ∧ ∃ row hfree, st'.nodes = st.nodes.insert row hfree ∧
      row.id = nodeIDOf d.first ∧ Shows p row (.created d.second.text d.now) := by
  unfold create at h
  simp only at h
  split_ifs at h with h₁ h₂ h₃
  cases h
  exact ⟨rfl, _, h₃, rfl, rfl, rfl, rfl, rfl⟩

theorem Tracks.create (h : Tracks p st log) (hfresh : d.second.text ∉ secrets log)
    {e : NodeEnrollment} (hc : Hub.create p d st name = .ok (e, st')) :
    Tracks p st' ((e.nodeID, .created e.code d.now) :: log) := by
  obtain ⟨rfl, row, hfree, hn, hid, hshows⟩ := create_ok hc
  have hrow : ∀ n, n ∈ st'.nodes ↔ n = row ∨ n ∈ st.nodes := by
    intro n
    rw [hn]
    exact List.mem_cons
  refine h.record ⟨fun k hk => ?_, fun code hcode => ?_⟩ (fun n hmem => ?_) (fun i hi => ?_)
  · cases hk
    exact ⟨hfresh, d.second.size⟩
  · cases hcode
  · rcases (hrow n).mp hmem with rfl | hmem
    · exact .inl ⟨hid, hshows⟩
    · exact .inr ⟨fun he => hfree ⟨n, hmem, he.trans hid.symm⟩, hmem⟩
  · rcases hi with rfl | ⟨n, hmem, rfl⟩
    · exact ⟨row, (hrow row).mpr (.inl rfl), hid⟩
    · exact ⟨n, (hrow n).mpr (.inr hmem), rfl⟩

theorem enroll_ok {token : String} (h : Hub.enroll p d st code = some (id, token, st')) :
    token = d.first.text ∧ st'.nodes =
      st.nodes.modify id (NodeRow.enrolled (p.hash d.first.text)) (fun _ => rfl) := by
  unfold Hub.enroll redeem at h
  split_ifs at h
  cases hf : nodeOfCode p d.now st code with
  | none => simp [hf] at h
  | some n =>
    simp only [hf, Option.bind_eq_bind, Option.bind_some, Option.pure_def, Option.some.injEq,
      Prod.mk.injEq] at h
    obtain ⟨rfl, rfl, rfl⟩ := h
    exact ⟨rfl, rfl⟩

/-- A code that enrolls a node was given to it and to no other, and was not redeemed before. -/
theorem Tracks.enroll (h : Tracks p st log) (hinj : Function.Injective p.hash)
    (hne : ∀ s, p.hash s ≠ "") (hfresh : d.first.text ∉ secrets log) {token : String}
    (he : Hub.enroll p d st code = some (id, token, st')) :
    Tracks p st' ((id, .enrolled code token) :: log) := by
  have hid : enrollsAs p d st code = some id := by rw [enrollsAs, he]; rfl
  obtain ⟨atMs, -, hlast⟩ := (h.enrollsAs_iff hinj hne d code id).mp hid
  have hgives : ∃ op, lastOn log id = some op ∧ op.Gives code := by
    rcases hlast with hlast | hlast
    · exact ⟨_, hlast, rfl⟩
    · exact ⟨_, hlast, rfl⟩
  obtain ⟨op, hop, hgiven⟩ := hgives
  have hsecret := secret_of_gives hgiven
  obtain ⟨rfl, hn⟩ := enroll_ok he
  refine h.modify (h.nodes id op hop) ⟨fun k hk => ?_, fun c hc => ?_⟩ _ _
    (fun n => ⟨rfl, rfl, rfl⟩) hn
  · cases hk
    exact ⟨hfresh, d.first.size⟩
  · cases hc
    refine ⟨secret_mem (mem_of_lastOn hop) hsecret, fun hred => ?_, fun id' op' hne' hop' hg' => ?_⟩
    · exact (h.redeemed code hred).2 id op hop hgiven
    · have heq := eq_of_secret h.distinct (mem_of_lastOn hop') (mem_of_lastOn hop)
        (secret_of_gives hg') hsecret
      exact hne' (Prod.mk.inj heq).1

theorem keepsCredentials_configure {settings : NodeSettings}
    (h : configure p st id settings = .ok st') : KeepsCredentials st st' := by
  unfold configure at h
  simp only at h
  split_ifs at h
  cases hc : cleanTags (settings.tags.getD []) [] with
  | error e => simp [hc, bind, Except.bind] at h
  | ok tags =>
    simp only [hc, bind, Except.bind] at h
    exact keepsCredentials_modify (NodeRow.configured settings (trimSpace settings.name) tags)
      (fun _ => rfl) (fun n => ⟨rfl, rfl, rfl, rfl⟩) (updateRow_ok h).2

/-- Every request keeps store and history in agreement. -/
theorem Tracks.serve (h : Tracks p st log) (hinj : Function.Injective p.hash)
    (hne : ∀ s, p.hash s ≠ "") (r : Draw × NodeRequest)
    (hfresh : ∀ t ∈ draws r, t.text ∉ secrets log) :
    Tracks p (serve p st r) ((performed p st r).toList ++ log) := by
  obtain ⟨d, q⟩ := r
  cases q with
  | create name =>
    simp only [Access.serve, performed]
    cases hc : Hub.create p d st name with
    | error e => exact h
    | ok result => exact h.create (hfresh _ (by simp [draws])) hc
  | issueCode id =>
    simp only [Access.serve, performed, issueCode]
    cases hu : updateRow st id (NodeRow.issued (p.hash d.first.text) (codeExpiry d.now))
      (fun _ => rfl) with
    | error e => exact h
    | ok st' =>
      obtain ⟨hid, hn⟩ := updateRow_ok hu
      refine h.modify hid ⟨fun k hk => ?_, fun c hc => ?_⟩ _ _ (fun n => ⟨rfl, rfl, rfl⟩) hn
      · cases hk
        exact ⟨hfresh _ (by simp [draws]), d.first.size⟩
      · cases hc
  | revoke id =>
    simp only [Access.serve, performed]
    cases hu : revoke st id with
    | error e => exact h
    | ok st' =>
      obtain ⟨hid, hn⟩ := updateRow_ok hu
      refine h.modify hid ⟨fun k hk => ?_, fun c hc => ?_⟩ _ _ (fun n => ⟨rfl, rfl, rfl⟩) hn
      · cases hk
      · cases hc
  | configure id settings =>
    simp only [Access.serve, performed]
    cases hc : configure p st id settings with
    | error e => exact h
    | ok st' => exact h.keep (keepsCredentials_configure hc)
  | enroll code =>
    simp only [Access.serve, performed]
    cases he : Hub.enroll p d st code with
    | none => exact h
    | some result => exact h.enroll hinj hne (hfresh _ (by simp [draws])) he
  | snapshots credential s =>
    simp only [Access.serve, performed]
    cases ha : authenticate p st credential with
    | none => exact h
    | some n =>
      simp only
      split_ifs
      · exact h.keep (keepsCredentials_ingested d.now st s)
      · exact h

end Requests

section Runs

variable {p : Platform} {requests : List (Draw × NodeRequest)}

theorem performed_secret {st : Store} {r : Draw × NodeRequest} {id : String} {op : Operation}
    (h : performed p st r = some (id, op)) {k : String} (hk : op.secret = some k) :
    k ∈ (draws r).map Token.text := by
  obtain ⟨d, q⟩ := r
  cases q with
  | create name =>
    cases hc : create p d st name with
    | error e => simp [performed, hc] at h
    | ok result =>
      obtain ⟨e, st'⟩ := result
      simp only [performed, hc, Option.some.injEq, Prod.mk.injEq] at h
      obtain ⟨-, rfl⟩ := h
      cases hk
      simp [draws, (create_ok hc).1]
  | issueCode id =>
    cases hu : updateRow st id (NodeRow.issued (p.hash d.first.text) (codeExpiry d.now))
        (fun _ => rfl) with
    | error e => simp [performed, issueCode, hu, bind, Except.bind] at h
    | ok st' =>
      simp only [performed, issueCode, hu, bind, Except.bind, pure, Except.pure,
        Option.some.injEq, Prod.mk.injEq] at h
      obtain ⟨-, rfl⟩ := h
      cases hk
      simp [draws]
  | revoke id =>
    cases hu : revoke st id with
    | error e => simp [performed, hu] at h
    | ok st' =>
      simp only [performed, hu, Option.some.injEq, Prod.mk.injEq] at h
      obtain ⟨-, rfl⟩ := h
      cases hk
  | configure id settings => cases h
  | enroll code =>
    cases he : Hub.enroll p d st code with
    | none => simp [performed, he] at h
    | some result =>
      obtain ⟨id', token, st'⟩ := result
      simp only [performed, he, Option.some.injEq, Prod.mk.injEq] at h
      obtain ⟨-, rfl⟩ := h
      cases hk
      simp [draws, (enroll_ok he).1]
  | snapshots credential s => cases h

/-- Tokens that are drawn later differ from all that were handed out. -/
theorem secrets_serve (st : Store) (log : History) (r : Draw × NodeRequest) {later : List String}
    (h : (secrets log ++ ((draws r).map Token.text ++ later)).Nodup) :
    (secrets ((performed p st r).toList ++ log) ++ later).Nodup := by
  have hrest : (secrets log ++ later).Nodup :=
    h.sublist (List.Sublist.append_left (List.sublist_append_right _ _) _)
  cases hp : performed p st r with
  | none => exact hrest
  | some e =>
    obtain ⟨id, op⟩ := e
    rw [Option.toList_some, List.singleton_append, secrets_cons]
    cases hk : op.secret with
    | none => exact hrest
    | some k =>
      have hdrawn := performed_secret hp hk
      obtain ⟨-, htokens, hapart⟩ := List.nodup_append.mp h
      obtain ⟨-, -, hlater⟩ := List.nodup_append.mp htokens
      refine List.nodup_cons.mpr ⟨fun hmem => ?_, hrest⟩
      rcases List.mem_append.mp hmem with hmem | hmem
      · exact hapart k hmem k (List.mem_append_left _ hdrawn) rfl
      · exact hlater k hdrawn k hmem rfl

/-- Store and history agree after any requests, if no token is drawn twice. -/
theorem tracks_served (st : Store) (hinj : Function.Injective p.hash) (hne : ∀ s, p.hash s ≠ "")
    (hdraws : ((requests.flatMap draws).map Token.text).Nodup) :
    Tracks p (served p st requests).1 (served p st requests).2 := by
  have hrun := foldl_invariant (serveStep p)
    (fun rest x => Tracks p x.1 x.2 ∧
      (secrets x.2 ++ (rest.flatMap draws).map Token.text).Nodup)
    (fun r rest x hx => ?_) requests ({ st with nodes := Table.empty }, []) ⟨?_, hdraws⟩
  · exact hrun.1
  · obtain ⟨htracks, hnodup⟩ := hx
    rw [List.flatMap_cons, List.map_append] at hnodup
    refine ⟨htracks.serve hinj hne r (fun t ht hmem => ?_), secrets_serve x.1 x.2 r hnodup⟩
    refine (List.nodup_append.mp hnodup).2.2 t.text hmem t.text (List.mem_append_left _ ?_) rfl
    exact List.mem_map_of_mem ht
  · exact {
      rows := fun n hn => absurd hn List.not_mem_nil
      nodes := fun id op h => by cases h
      distinct := List.nodup_nil
      whole := fun k hk => absurd hk List.not_mem_nil
      once := List.nodup_nil
      redeemed := fun code hcode => absurd hcode List.not_mem_nil }

theorem credentials_configure {st : Store} {log : History} (h : Tracks p st log)
    (hinj : Function.Injective p.hash) (hne : ∀ s, p.hash s ≠ "") (d : Draw) (id : String)
    (settings : NodeSettings) :
    (∀ c, uploadsAs p (serve p st (d, .configure id settings)) c = uploadsAs p st c) ∧
      ∀ d' k, enrollsAs p d' (serve p st (d, .configure id settings)) k = enrollsAs p d' st k := by
  have hafter : Tracks p (serve p st (d, .configure id settings)) log :=
    h.serve hinj hne (d, .configure id settings) (fun t ht => absurd ht List.not_mem_nil)
  constructor
  · intro c
    ext i
    rw [hafter.uploadsAs_iff hinj hne, h.uploadsAs_iff hinj hne]
  · intro d' k
    ext i
    rw [hafter.enrollsAs_iff hinj hne, h.enrollsAs_iff hinj hne]

/-- A token is good for the node whose last operation returned it, a code for 15 minutes after the
operation that gave it, and no code is redeemed twice. -/
theorem credentials_of_last_operation (p : Platform) (st₀ : Store)
    (requests : List (Draw × NodeRequest)) (hinj : Function.Injective p.hash) (hne : ∀ s, p.hash s ≠ "")
    (hdraws : ((requests.flatMap draws).map Token.text).Nodup) :
    let st := (served p st₀ requests).1
    let log := (served p st₀ requests).2
    (∀ c id, uploadsAs p st c = some id ↔ ∃ code, lastOn log id = some (.enrolled code c)) ∧
    (∀ d k id, enrollsAs p d st k = some id ↔ ∃ atMs, d.now < codeExpiry atMs ∧
      (lastOn log id = some (.created k atMs) ∨ lastOn log id = some (.issued k atMs))) ∧
    (redeemedCodes log).Nodup ∧
    (∀ id c d k, ¬ (uploadsAs p st c = some id ∧ enrollsAs p d st k = some id)) ∧
    ∀ d id settings,
      (∀ c, uploadsAs p (serve p st (d, .configure id settings)) c = uploadsAs p st c) ∧
      ∀ d' k, enrollsAs p d' (serve p st (d, .configure id settings)) k = enrollsAs p d' st k := by
  have h := tracks_served st₀ hinj hne hdraws
  refine ⟨h.uploadsAs_iff hinj hne, h.enrollsAs_iff hinj hne, h.once, ?_,
    credentials_configure h hinj hne⟩
  rintro id c d k ⟨hup, hen⟩
  obtain ⟨code, hlast⟩ := (h.uploadsAs_iff hinj hne c id).mp hup
  obtain ⟨atMs, -, hlast' | hlast'⟩ := (h.enrollsAs_iff hinj hne d k id).mp hen
  · cases hlast.symm.trans hlast'
  · cases hlast.symm.trans hlast'

/-- SHA-256 of the tokens in use. -/
def tokenDigests : List (String × String) :=
  [((Token.replicate 'b').text, "a0fab1377f49a759b57f63318262ebe89fabfc990e8e93ceac2984561482b9d4"),
    ((Token.replicate 'c').text, "52b6419d27bd7f547cee3b92f8c17a908b8a49601ecbec161e5030de1dfe9e0a"),
    ((Token.replicate 'd').text, "d91323a5298f3b9f814db29efaa271f24fbdccedfdd062491b8abc8e07b7fb69"),
    ((Token.replicate 'e').text, "add5b41fc5a881fc87ef4640581ed5ff7fe5eab39640b3a3e6e8b90f0aa71730")]

def digest (s : String) : String :=
  ((tokenDigests.find? (fun e => e.1 = s)).map Prod.snd).getD ("x" ++ s)

/-- A platform with these digests. -/
def hashing : Platform := { ascii with hash := digest }

theorem digest_cases (s : String) :
    (∃ e ∈ tokenDigests, e.1 = s ∧ digest s = e.2) ∨ digest s = "x" ++ s := by
  unfold digest
  cases he : tokenDigests.find? (fun e => e.1 = s) with
  | none => exact .inr rfl
  | some e => exact .inl ⟨e, List.mem_of_find?_eq_some he, by simpa using List.find?_some he, rfl⟩

theorem ne_of_mem_tokenDigests {e : String × String} (he : e ∈ tokenDigests) (s : String) :
    e.2 ≠ "x" ++ s := by
  have hx : ∀ e ∈ tokenDigests, e.2.toList.head? ≠ some 'x' := by decide +kernel
  intro heq
  have hhead := hx e he
  rw [heq] at hhead
  simp at hhead

theorem digest_injective : Function.Injective digest := by
  have hdistinct : ∀ e ∈ tokenDigests, ∀ e' ∈ tokenDigests, e.2 = e'.2 → e.1 = e'.1 := by
    decide +kernel
  intro s t h
  rcases digest_cases s with ⟨e, he, rfl, hs⟩ | hs
  · rcases digest_cases t with ⟨e', he', rfl, ht⟩ | ht
    · exact hdistinct e he e' he' (hs.symm.trans (h.trans ht))
    · exact absurd (hs.symm.trans (h.trans ht)) (ne_of_mem_tokenDigests he t)
  · rcases digest_cases t with ⟨e', he', rfl, ht⟩ | ht
    · exact absurd (ht.symm.trans (h.symm.trans hs)) (ne_of_mem_tokenDigests he' s)
    · simpa using hs.symm.trans (h.trans ht)

theorem digest_nonempty (s : String) : digest s ≠ "" := by
  have hnonempty : ∀ e ∈ tokenDigests, e.2 ≠ "" := by decide +kernel
  rcases digest_cases s with ⟨e, he, rfl, hs⟩ | hs
  · rw [hs]
    exact hnonempty e he
  · intro h
    have hlist := congrArg String.toList (hs.symm.trans h)
    simp at hlist

/-- A node is created and enrolled; uploads with its token are taken for it. -/
theorem credentials_of_last_operation_enrolled :
    uploadsAs hashing (served hashing (freshStore Table.empty)
      [(⟨1700000000000, .replicate 'a', .replicate 'b', fun _ => none⟩, .create "n1"),
        (⟨1700000060000, .replicate 'c', .replicate 'd', fun _ => none⟩,
          .enroll (Token.replicate 'b').text)]).1
      (Token.replicate 'c').text = some "aaaaaaaaaaaaaaaaaaaaaaaa" := by
  have h := credentials_of_last_operation hashing (freshStore Table.empty)
    [(⟨1700000000000, .replicate 'a', .replicate 'b', fun _ => none⟩, .create "n1"),
      (⟨1700000060000, .replicate 'c', .replicate 'd', fun _ => none⟩,
        .enroll (Token.replicate 'b').text)]
    digest_injective digest_nonempty (by decide +kernel)
  exact (h.1 _ _).mpr ⟨(Token.replicate 'b').text, by decide +kernel⟩

end Runs

end CardScope.Access

import CardScope.Agent.Queue
import CardScope.Hub.Prune

/-! # Client, network and hub

The sampling loop and the upload loop of a client act on one directory without a lock, so each
access to a file is a step of its own. A message stays in the network once it is sent: the hub may
take it late, more than once or never, and the same holds for responses. An action that is not
possible in a state changes nothing.
-/

namespace CardScope.Agent
open Library Model Hub

structure Config where
  nodeID : String
  interval : ℤ

/-- Where the sampling loop stands. `pruneQueue` first adds up the sizes of the listed files, then
it looks at each of them again; `evicting` is between the look at a file and its removal. -/
inductive Sampling where
  | waiting
  | sampled (s : Snapshot)
  | written (s : Snapshot)
  | queued
  | measuring (rest files : List String) (size : ℤ)
  | pruning (rest : List String) (size : ℤ)
  | evicting (name : String) (fileSize : ℕ) (rest : List String) (size : ℤ)
deriving DecidableEq

/-- Where the upload loop stands. A sample that was read is in memory, whatever happens to its
file; `accepted` is between the response and the removal of the file. -/
inductive Uploading where
  | waiting
  | batch (rest : List String)
  | loaded (name : String) (s : Snapshot) (rest : List String)
  | posted (name : String) (s : Snapshot) (rest : List String) (id : ℕ)
  | accepted (name : String) (s : Snapshot) (rest : List String)
deriving DecidableEq

/-- A sample that was counted as dropped, and whether the upload loop had read its file by then. -/
structure Eviction where
  snapshot : Snapshot
  read : Bool
deriving DecidableEq

/-- The state of all parties; a request is known by its position in `requests`. The fields behind
`responses` are history. -/
structure State where
  boot : String
  seq : ℤ
  dropped : ℤ
  queue : Queue
  sampling : Sampling
  uploading : Uploading
  hub : Store
  requests : List Snapshot
  responses : List (ℕ × Bool)
  log : List Event
  boots : List String
  produced : List Snapshot
  evicted : List Eviction
  read : List String

namespace State

section SamplingLoop

/-- A round of the loop begins with a sample. -/
def sample (c : Config) (st : State) (collected : Snapshot) : State :=
  match st.sampling with
  | .waiting =>
    let s := { collected with
      nodeID := c.nodeID
      bootID := st.boot
      seq := st.seq + 1
      interval := c.interval
      cacheDropped := st.dropped }
    { st with seq := st.seq + 1, sampling := .sampled s }
  | _ => st

def writeTemp (st : State) (size : ℕ) (now : ℤ) : State :=
  match st.sampling with
  | .sampled s =>
    { st with
      queue := st.queue.put ⟨tempName (fileName s), s, size, now⟩
      sampling := .written s }
  | _ => st

/-- The second half of `atomic`; from here on the sample is in the queue. -/
def rename (st : State) : State :=
  match st.sampling with
  | .written s => match st.queue.find? (tempName (fileName s)) with
    | some f =>
      { st with
        queue := (st.queue.keep (fun g => g.name ≠ f.name)).put { f with name := fileName s }
        produced := st.produced ++ [s]
        sampling := .queued }
    | none => st
  | _ => st

/-- `pruneQueue` goes on without files when the directory cannot be read. -/
def listFiles (st : State) (readable : Bool) : State :=
  match st.sampling with
  | .queued =>
    let files := if readable then readDir st.queue else []
    { st with sampling := .measuring files files 0 }
  | _ => st

/-- A file that is gone adds nothing to the size. -/
def measure (st : State) : State :=
  match st.sampling with
  | .measuring (name :: rest) files size =>
    let fileSize := (st.queue.find? name).elim 0 File.size
    { st with sampling := .measuring rest files (size + fileSize) }
  | .measuring [] files size => { st with sampling := .pruning files size }
  | _ => st

/-- The decision about the next file. -/
def examine (st : State) (now : ℤ) : State :=
  match st.sampling with
  | .pruning (name :: rest) size =>
    if !isSample name then { st with sampling := .pruning rest size }
    else match st.queue.find? name with
      | none => { st with sampling := .pruning rest size }
      | some f =>
        if size ≤ capacity ∧ now - f.modified ≤ maxAge then
          { st with sampling := .pruning rest size }
        else { st with sampling := .evicting name f.size rest size }
  | .pruning [] _ => { st with sampling := .waiting }
  | _ => st

/-- Only a removal that succeeds is counted. -/
def evict (st : State) (removable : Bool) : State :=
  match st.sampling with
  | .evicting name fileSize rest size =>
    match (st.queue.find? name).filter (fun _ => removable) with
    | some f =>
      { st with
        queue := st.queue.keep (fun g => g.name ≠ name)
        dropped := st.dropped + 1
        evicted := st.evicted ++ [⟨f.snapshot, name ∈ st.read⟩]
        sampling := .pruning rest (size - fileSize) }
    | none => { st with sampling := .pruning rest size }
  | _ => st

/-- The client is stopped between two rounds and started again. The count of dropped samples is
read back, the numbers of the samples begin anew. -/
def restart (st : State) (boot : BootID) : State :=
  match st.sampling, st.uploading with
  | .waiting, .waiting | .waiting, .batch _ =>
    if boot.text ∈ st.boots then st
    else
      { st with
        boot := boot.text
        boots := boot.text :: st.boots
        seq := 0
        uploading := .waiting }
  | _, _ => st

end SamplingLoop

section UploadLoop

def startBatch (st : State) : State :=
  match st.uploading with
  | .waiting => { st with uploading := .batch (uploadOrder (readDir st.queue)) }
  | _ => st

/-- A file that is gone or cannot be read is skipped. -/
def readFile (st : State) (readable : Bool) : State :=
  match st.uploading with
  | .batch (name :: rest) =>
    if !isSample name then { st with uploading := .batch rest }
    else match (st.queue.find? name).filter (fun _ => readable) with
      | none => { st with uploading := .batch rest }
      | some f =>
        { st with read := name :: st.read, uploading := .loaded name f.snapshot rest }
  | .batch [] => { st with uploading := .waiting }
  | _ => st

def post (c : Config) (st : State) (now : ℤ) : State :=
  match st.uploading with
  | .loaded name s rest =>
    { st with
      requests := st.requests ++ [{ s with backfill := now - s.atMs > c.interval * 2000 }]
      uploading := .posted name s rest st.requests.length }
  | _ => st

/-- A response below 400 is a success, any other ends the batch. -/
def receive (st : State) (ok : Bool) : State :=
  match st.uploading with
  | .posted name s rest id =>
    if (id, ok) ∉ st.responses then st
    else if ok then { st with uploading := .accepted name s rest }
    else { st with uploading := .waiting }
  | _ => st

def giveUp (st : State) : State :=
  match st.uploading with
  | .posted _ _ _ _ => { st with uploading := .waiting }
  | _ => st

/-- The error of the removal is not looked at. -/
def remove (st : State) (removable : Bool) : State :=
  match st.uploading with
  | .accepted name _ rest =>
    { st with
      queue := st.queue.keep (fun g => !removable || g.name ≠ name)
      uploading := .batch rest }
  | _ => st

end UploadLoop

section HubSide

/-- A transaction of the hub and whether it succeeded. One that finds the sample stored succeeds
without an effect. -/
def transact (st : State) (now : ℤ) (u : Snapshot) : Bool × State :=
  match ingest now st.hub u with
  | .ok hub =>
    let log := if st.hub.samples.HasKey (sampleRow u).key then st.log
      else st.log ++ [.ingest now u]
    (true, { st with hub := hub, log := log })
  | .error _ => (false, st)

/-- The hub answers a request below 400 when the transaction succeeded. -/
def serve (st : State) (id : ℕ) (now : ℤ) : State :=
  match st.requests[id]? with
  | some u =>
    let done := st.transact now u
    { done.2 with responses := (id, done.1) :: done.2.responses }
  | none => st

def refuse (st : State) (id : ℕ) : State :=
  match st.requests[id]? with
  | some _ => { st with responses := (id, false) :: st.responses }
  | none => st

def upload (c : Config) (st : State) (now : ℤ) (u : Snapshot) : State :=
  if u.nodeID = c.nodeID then st else (st.transact now u).2

def cleanup (st : State) (now : ℤ) : State :=
  { st with hub := prune now st.hub, log := st.log ++ [.prune now] }

end HubSide

end State

/-- One step of one party. Clock readings, sizes of files and failures are part of the action. -/
inductive Action where
  | sample (collected : Snapshot)
  | writeTemp (size : ℕ) (now : ℤ)
  | rename
  | listFiles (readable : Bool)
  | measure
  | examine (now : ℤ)
  | evict (removable : Bool)
  | restart (boot : BootID)
  | startBatch
  | readFile (readable : Bool)
  | post (now : ℤ)
  | receive (ok : Bool)
  | giveUp
  | remove (removable : Bool)
  | serve (id : ℕ) (now : ℤ)
  | refuse (id : ℕ)
  | upload (now : ℤ) (u : Snapshot)
  | cleanup (now : ℤ)

def act (c : Config) (st : State) : Action → State
  | .sample collected => st.sample c collected
  | .writeTemp size now => st.writeTemp size now
  | .rename => st.rename
  | .listFiles readable => st.listFiles readable
  | .measure => st.measure
  | .examine now => st.examine now
  | .evict removable => st.evict removable
  | .restart boot => st.restart boot
  | .startBatch => st.startBatch
  | .readFile readable => st.readFile readable
  | .post now => st.post c now
  | .receive ok => st.receive ok
  | .giveUp => st.giveUp
  | .remove removable => st.remove removable
  | .serve id now => st.serve id now
  | .refuse id => st.refuse id
  | .upload now u => st.upload c now u
  | .cleanup now => st.cleanup now

/-- A hub with registered nodes and a client that starts with an empty queue. -/
structure Setup where
  config : Config
  nodes : Table NodeRow NodeRow.id
  boot : BootID
  dropped : ℤ

def Setup.start (c : Setup) : State where
  boot := c.boot.text
  seq := 0
  dropped := c.dropped
  queue := Table.empty
  sampling := .waiting
  uploading := .waiting
  hub := freshStore c.nodes
  requests := []
  responses := []
  log := []
  boots := [c.boot.text]
  produced := []
  evicted := []
  read := []

def Setup.after (c : Setup) (actions : List Action) : State :=
  actions.foldl (act c.config) c.start

end CardScope.Agent

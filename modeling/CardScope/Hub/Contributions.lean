import CardScope.Library.Slices
import CardScope.Model.Snapshot

/-! # Points and contributions

A point is the state of one card in one sample. Two neighbouring points of one card and
one client start contribute seconds to minute and hour buckets, for the whole card and
for each user on it.
-/

namespace CardScope.Hub
open Library Model

/-- The seven numeric columns of a rollup, in seconds or bytes times seconds. -/
@[ext] structure Measures where
  occupied : ℚ := 0
  weighted : ℚ := 0
  occupancyValid : ℚ := 0
  utilValid : ℚ := 0
  memorySum : ℚ := 0
  memoryValid : ℚ := 0
  attributionValid : ℚ := 0
deriving DecidableEq

namespace Measures

instance : Zero Measures := ⟨{}⟩
instance : Add Measures := ⟨fun a b =>
  ⟨a.occupied + b.occupied, a.weighted + b.weighted, a.occupancyValid + b.occupancyValid,
    a.utilValid + b.utilValid, a.memorySum + b.memorySum, a.memoryValid + b.memoryValid,
    a.attributionValid + b.attributionValid⟩⟩
instance : SMul ℚ Measures := ⟨fun c a =>
  ⟨c * a.occupied, c * a.weighted, c * a.occupancyValid, c * a.utilValid, c * a.memorySum,
    c * a.memoryValid, c * a.attributionValid⟩⟩
instance : Neg Measures := ⟨fun a => (-1 : ℚ) • a⟩

@[simp] theorem zero_occupied : (0 : Measures).occupied = 0 := rfl
@[simp] theorem zero_weighted : (0 : Measures).weighted = 0 := rfl
@[simp] theorem zero_occupancyValid : (0 : Measures).occupancyValid = 0 := rfl
@[simp] theorem zero_utilValid : (0 : Measures).utilValid = 0 := rfl
@[simp] theorem zero_memorySum : (0 : Measures).memorySum = 0 := rfl
@[simp] theorem zero_memoryValid : (0 : Measures).memoryValid = 0 := rfl
@[simp] theorem zero_attributionValid : (0 : Measures).attributionValid = 0 := rfl

variable (a b : Measures) (c : ℚ)

@[simp] theorem add_occupied : (a + b).occupied = a.occupied + b.occupied := rfl
@[simp] theorem add_weighted : (a + b).weighted = a.weighted + b.weighted := rfl
@[simp] theorem add_occupancyValid :
    (a + b).occupancyValid = a.occupancyValid + b.occupancyValid := rfl
@[simp] theorem add_utilValid : (a + b).utilValid = a.utilValid + b.utilValid := rfl
@[simp] theorem add_memorySum : (a + b).memorySum = a.memorySum + b.memorySum := rfl
@[simp] theorem add_memoryValid : (a + b).memoryValid = a.memoryValid + b.memoryValid := rfl
@[simp] theorem add_attributionValid :
    (a + b).attributionValid = a.attributionValid + b.attributionValid := rfl

@[simp] theorem smul_occupied : (c • a).occupied = c * a.occupied := rfl
@[simp] theorem smul_weighted : (c • a).weighted = c * a.weighted := rfl
@[simp] theorem smul_occupancyValid : (c • a).occupancyValid = c * a.occupancyValid := rfl
@[simp] theorem smul_utilValid : (c • a).utilValid = c * a.utilValid := rfl
@[simp] theorem smul_memorySum : (c • a).memorySum = c * a.memorySum := rfl
@[simp] theorem smul_memoryValid : (c • a).memoryValid = c * a.memoryValid := rfl
@[simp] theorem smul_attributionValid : (c • a).attributionValid = c * a.attributionValid := rfl

theorem neg_eq_smul : -a = (-1 : ℚ) • a := rfl

instance : AddCommGroup Measures where
  add_assoc a b c := by ext <;> simp [add_assoc]
  zero_add a := by ext <;> simp
  add_zero a := by ext <;> simp
  add_comm a b := by ext <;> simp [add_comm]
  neg_add_cancel a := by ext <;> simp [neg_eq_smul]
  nsmul := nsmulRec
  zsmul := zsmulRec

instance : Module ℚ Measures where
  one_smul a := by ext <;> simp
  mul_smul c d a := by ext <;> simp [mul_assoc]
  smul_zero c := by ext <;> simp
  smul_add c a b := by ext <;> simp [mul_add]
  add_smul c d a := by ext <;> simp [add_mul]
  zero_smul a := by ext <;> simp

end Measures

/-- The primary key of the rollups table. An empty `user` is the whole card. -/
structure RollupKey where
  node : String
  uuid : String
  user : String
  res : ℤ
  bucket : ℤ
deriving DecidableEq

/-- The increment of one time bucket. -/
structure Contribution where
  key : RollupKey
  model : String
  name : String
  measures : Measures
deriving DecidableEq

/-- The state that integration needs. `processValid` says that occupancy is known,
`userValid` that the user of every process is known as well. -/
structure Point where
  atMs : ℤ
  interval : ℤ
  seq : ℤ
  model : String
  occupied : Bool
  processValid : Bool
  userValid : Bool
  users : StringMap
  util : Option ℚ
  memory : Option ℚ
  status : String
deriving DecidableEq

/-- The whole-card increment over `sec` seconds of state `a`. -/
def cardMeasures (a : Point) (sec : ℚ) : Measures where
  attributionValid := if a.processValid && a.userValid then sec else 0
  occupancyValid := if a.processValid then sec else 0
  occupied := if a.processValid && a.occupied then sec else 0
  utilValid := if a.util.isSome then sec else 0
  weighted := a.util.elim 0 (fun util => sec * util / 100)
  memoryValid := if a.memory.isSome then sec else 0
  memorySum := a.memory.elim 0 (fun memory => sec * memory)

/-- The increment of a user on the card over `sec` seconds. -/
def userMeasures (sec : ℚ) : Measures where
  occupied := sec
  occupancyValid := sec

/-- The whole-card contribution of one slice, then one for each user when the process
list is known. Users are keyed by UID, so several processes of one user count once. -/
def sliceContributions (node uuid : String) (a : Point) (res : ℤ) (s : Slice) :
    List Contribution :=
  let sec : ℚ := (s.span : ℚ) / 1000
  { key := ⟨node, uuid, "", res, s.bucket⟩, model := a.model, name := "",
    measures := cardMeasures a sec } ::
  if a.processValid then
    a.users.rows.map (fun user =>
      { key := ⟨node, uuid, user.1, res, s.bucket⟩, model := a.model, name := user.2,
        measures := userMeasures sec })
  else []

/-- Integrate the state of the earlier point `a` over `[a.atMs, b.atMs)`, cut at minute and
hour boundaries. A gap of more than two sampling intervals is unknown time. -/
def contributions (node uuid : String) (a b : Point) : List Contribution :=
  if b.atMs ≤ a.atMs ∨ b.atMs - a.atMs > 2 * a.interval * 1000 then []
  else [60000, 3600000].flatMap (fun res =>
    (slices res a.atMs b.atMs).flatMap (sliceContributions node uuid a res))

/-- What a list of contributions adds to the rollups whose key satisfies `p`. -/
def total (p : RollupKey → Bool) (cs : List Contribution) : Measures :=
  (cs.map (fun c => if p c.key then c.measures else 0)).sum

end CardScope.Hub

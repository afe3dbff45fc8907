import CardScope.Library.Runs

/-! # Tasks that share a number of places

Each task waits for a place, works, writes its result to a slot of its own, gives the place back and
leaves. A task that still waits when the time is up writes a result without having worked. Whoever
started the tasks waits until the last one has left.
-/

namespace CardScope.Library

/-- Where a task is. It holds a place while it works and until it has given the place back. -/
inductive Phase where
  | waiting
  | working
  | holding
  | leaving
  | gone
deriving DecidableEq

/-- The tasks with their slots, the number of places taken, and the number of tasks to wait for. -/
structure Pool (ι γ : Type*) where
  taken : ℕ
  remaining : ℕ
  expired : Bool
  phase : ι → Phase
  slots : ι → Option γ

namespace Pool

/-- The number of places, what a task writes when its work ends with an answer, and what it writes
when it has not worked. -/
structure Rules (ι α γ : Type*) where
  capacity : ℕ
  finished : ι → α → γ
  skipped : ι → γ

inductive Move (ι α : Type*) where
  | expire
  | start (i : ι)
  | skip (i : ι)
  | finish (i : ι) (answer : α)
  | release (i : ι)
  | leave (i : ι)

variable {ι α γ : Type*}

section Steps

variable [DecidableEq ι] (rules : Rules ι α γ)

/-- One step of one task, or of the clock; a step that is not possible leaves everything as it is. -/
def step (p : Pool ι γ) : Move ι α → Pool ι γ
  | .expire => { p with expired := true }
  | .start i =>
    if p.phase i = .waiting ∧ p.taken < rules.capacity then
      { p with
        taken := p.taken + 1
        phase := Function.update p.phase i .working }
    else p
  | .skip i =>
    if p.phase i = .waiting ∧ p.expired then
      { p with
        phase := Function.update p.phase i .leaving
        slots := Function.update p.slots i (some (rules.skipped i)) }
    else p
  | .finish i answer =>
    if p.phase i = .working then
      { p with
        phase := Function.update p.phase i .holding
        slots := Function.update p.slots i (some (rules.finished i answer)) }
    else p
  | .release i =>
    if p.phase i = .holding then
      { p with
        taken := p.taken - 1
        phase := Function.update p.phase i .leaving }
    else p
  | .leave i =>
    if p.phase i = .leaving then
      { p with
        remaining := p.remaining - 1
        phase := Function.update p.phase i .gone }
    else p

def run (p : Pool ι γ) (moves : List (Move ι α)) : Pool ι γ := moves.foldl (step rules) p

end Steps

def start (ι γ : Type*) [Fintype ι] : Pool ι γ where
  taken := 0
  remaining := Fintype.card ι
  expired := false
  phase := fun _ => .waiting
  slots := fun _ => none

section Tally

variable [Fintype ι]

/-- The tasks counted with the weights of their phases. -/
def tally (weight : Phase → ℕ) (phase : ι → Phase) : ℕ := ∑ i, weight (phase i)

theorem tally_update [DecidableEq ι] (weight : Phase → ℕ) (phase : ι → Phase) (i : ι) (x : Phase) :
    tally weight (Function.update phase i x) + weight (phase i) = tally weight phase + weight x := by
  have hcomp : (fun j => weight (Function.update phase i x j)) =
      Function.update (fun j => weight (phase j)) i (weight x) := by
    ext j
    by_cases hj : j = i
    · subst hj
      simp
    · simp [hj]
  have hsplit := Finset.sum_erase_add Finset.univ (fun j => weight (phase j)) (Finset.mem_univ i)
  simp only [tally, hcomp, Finset.sum_update_of_mem (Finset.mem_univ i), ← hsplit,
    Finset.sdiff_singleton_eq_erase]
  omega

theorem tally_eq_zero {weight : Phase → ℕ} {phase : ι → Phase} :
    tally weight phase = 0 ↔ ∀ i, weight (phase i) = 0 := by
  simp [tally]

theorem exists_of_tally_pos {weight : Phase → ℕ} {phase : ι → Phase} (h : 0 < tally weight phase) :
    ∃ i, 0 < weight (phase i) := by
  by_contra hnone
  push Not at hnone
  exact h.ne' (tally_eq_zero.mpr (fun i => Nat.le_zero.mp (hnone i)))

end Tally

def placed : Phase → ℕ
  | .working | .holding => 1
  | .waiting | .leaving | .gone => 0

def awaited : Phase → ℕ
  | .gone => 0
  | .waiting | .working | .holding | .leaving => 1

def ahead : Phase → ℕ
  | .waiting => 4
  | .working => 3
  | .holding => 2
  | .leaving => 1
  | .gone => 0

variable [Fintype ι] {rules : Rules ι α γ} {p : Pool ι γ} {moves : List (Move ι α)}

/-- The result is what one of the moves of the task writes, or the time is up. -/
def Written (rules : Rules ι α γ) (moves : List (Move ι α)) (p : Pool ι γ) (i : ι) (result : γ) :
    Prop :=
  (∃ answer, .finish i answer ∈ moves ∧ result = rules.finished i answer) ∨
    result = rules.skipped i ∧ p.expired = true

/-- What holds between the counters, the tasks and their slots, when `moves` are the moves of the
run. -/
structure Sound (rules : Rules ι α γ) (moves : List (Move ι α)) (p : Pool ι γ) : Prop where
  taken_eq : p.taken = tally placed p.phase
  taken_le : p.taken ≤ rules.capacity
  remaining_eq : p.remaining = tally awaited p.phase
  unwritten : ∀ i, p.slots i = none ↔ p.phase i = .waiting ∨ p.phase i = .working
  written : ∀ i result, p.slots i = some result → Written rules moves p i result

theorem sound_start (rules : Rules ι α γ) (moves : List (Move ι α)) :
    Sound rules moves (start ι γ) := by
  constructor <;> simp [start, tally, placed, awaited]

theorem Sound.mono (h : Sound rules moves p) {all : List (Move ι α)} (hall : moves ⊆ all) :
    Sound rules all p :=
  { h with
    written := fun i result hi => (h.written i result hi).imp_left
      (fun ⟨answer, hm, heq⟩ => ⟨answer, hall hm, heq⟩) }

theorem Sound.working_le (h : Sound rules moves p) :
    (Finset.univ.filter (fun i => p.phase i = .working)).card ≤ rules.capacity := by
  rw [Finset.card_filter]
  refine (Finset.sum_le_sum (fun i _ => ?_)).trans (h.taken_eq.symm.le.trans h.taken_le)
  split_ifs with hi
  · simp [hi, placed]
  · exact Nat.zero_le _

theorem Sound.all_written (h : Sound rules moves p) (hdone : p.remaining = 0) (i : ι) :
    ∃ result, p.slots i = some result ∧ Written rules moves p i result := by
  have hzero := tally_eq_zero.mp (h.remaining_eq.symm.trans hdone) i
  have hgone : p.phase i = .gone := by
    cases hphase : p.phase i <;> simp [hphase, awaited] at hzero ⊢
  obtain ⟨result, hresult⟩ := Option.ne_none_iff_exists'.mp
    (fun hnone => by simpa [hgone] using (h.unwritten i).mp hnone)
  exact ⟨result, hresult, h.written i result hresult⟩

variable [DecidableEq ι]

/-- One task goes on to the phase `x`, and the counters follow. -/
theorem Sound.advance (h : Sound rules moves p) {i : ι} {x : Phase} {taken remaining : ℕ}
    {slots : ι → Option γ} (htaken : taken + placed (p.phase i) = p.taken + placed x)
    (hle : taken ≤ rules.capacity)
    (hremaining : remaining + awaited (p.phase i) = p.remaining + awaited x)
    (hother : ∀ j, j ≠ i → slots j = p.slots j)
    (hunwritten : slots i = none ↔ x = .waiting ∨ x = .working)
    (hwritten : ∀ result, slots i = some result → Written rules moves p i result) :
    Sound rules moves { p with
      taken := taken
      remaining := remaining
      phase := Function.update p.phase i x
      slots := slots } := by
  have hplaces := tally_update placed p.phase i x
  have hawaited := tally_update awaited p.phase i x
  have htaken_eq := h.taken_eq
  have hremaining_eq := h.remaining_eq
  refine ⟨by simp only; omega, hle, by simp only; omega, fun j => ?_, fun j result hj => ?_⟩
  · by_cases hji : j = i
    · subst hji
      simpa using hunwritten
    · simpa [hji, hother j hji] using h.unwritten j
  · by_cases hji : j = i
    · subst hji
      exact hwritten result hj
    · exact h.written j result ((hother j hji).symm.trans hj)

theorem Sound.step (h : Sound rules moves p) {m : Move ι α} (hm : m ∈ moves) :
    Sound rules moves (step rules p m) := by
  cases m with
  | expire =>
    exact ⟨h.taken_eq, h.taken_le, h.remaining_eq, h.unwritten, fun i result hi =>
      (h.written i result hi).imp_right (fun hs => ⟨hs.1, rfl⟩)⟩
  | start i =>
    simp only [Pool.step]
    split_ifs with hi
    · have hslot : p.slots i = none := (h.unwritten i).mpr (.inl hi.1)
      apply h.advance <;> simp [hi, hslot, placed, awaited]
    · exact h
  | skip i =>
    simp only [Pool.step]
    split_ifs with hi
    · apply h.advance <;> simp +contextual [hi, h.taken_le, placed, awaited, Function.update_of_ne]
      exact .inr ⟨rfl, hi.2⟩
    · exact h
  | finish i answer =>
    simp only [Pool.step]
    split_ifs with hi
    · apply h.advance <;> simp +contextual [hi, h.taken_le, placed, awaited, Function.update_of_ne]
      exact .inl ⟨answer, hm, rfl⟩
    · exact h
  | release i =>
    simp only [Pool.step]
    split_ifs with hi
    · have hslot := h.unwritten i
      have hpos : 0 < p.taken := by
        have hsplit := tally_update placed p.phase i .leaving
        rw [h.taken_eq]
        simp only [hi, placed] at hsplit
        omega
      apply h.advance
      · simp only [hi, placed]
        omega
      · exact (Nat.sub_le _ _).trans h.taken_le
      · simp [hi, awaited]
      · simp
      · simpa [hi] using hslot
      · exact h.written i
    · exact h
  | leave i =>
    simp only [Pool.step]
    split_ifs with hi
    · have hslot := h.unwritten i
      have hpos : 0 < p.remaining := by
        have hsplit := tally_update awaited p.phase i .gone
        rw [h.remaining_eq]
        simp only [hi, awaited] at hsplit
        omega
      apply h.advance
      · simp [hi, placed]
      · exact h.taken_le
      · simp only [hi, awaited]
        omega
      · simp
      · simpa [hi] using hslot
      · exact h.written i
    · exact h

theorem sound_run (rules : Rules ι α γ) (moves : List (Move ι α)) :
    Sound rules moves (run rules (start ι γ) moves) := by
  have hrun := foldl_invariant (Pool.step rules)
    (fun rest p => Sound rules moves p ∧ ∀ m ∈ rest, m ∈ moves)
    (fun m rest p h => ⟨h.1.step (h.2 m List.mem_cons_self),
      fun m' hm' => h.2 m' (List.mem_cons_of_mem m hm')⟩)
    moves (start ι γ) ⟨sound_start rules moves, fun _ hm => hm⟩
  exact hrun.1

theorem Sound.slot_step (h : Sound rules moves p) {i : ι} {result : γ}
    (hi : p.slots i = some result) (m : Move ι α) :
    (Pool.step rules p m).slots i = some result := by
  have hphase : ¬ (p.phase i = .waiting ∨ p.phase i = .working) := by
    rw [← h.unwritten, hi]
    simp
  cases m with
  | expire => exact hi
  | start j | release j | leave j =>
    simp only [Pool.step]
    split_ifs <;> exact hi
  | skip j | finish j a =>
    simp only [Pool.step]
    split_ifs with hj
    · have hne : i ≠ j := by
        rintro rfl
        exact hphase (by tauto)
      simpa [hne] using hi
    · exact hi

/-- What a slot holds at some time it holds at the end. -/
theorem slot_run (rules : Rules ι α γ) (early late : List (Move ι α)) {i : ι} {result : γ}
    (hi : (run rules (start ι γ) early).slots i = some result) :
    (run rules (start ι γ) (early ++ late)).slots i = some result := by
  have hsound := (sound_run rules early).mono (List.subset_append_left early late)
  have hrun := foldl_invariant (Pool.step rules)
    (fun rest p => Sound rules (early ++ late) p ∧ p.slots i = some result ∧ rest ⊆ early ++ late)
    (fun m rest p h => ⟨h.1.step (h.2.2 List.mem_cons_self), h.1.slot_step h.2.1 m,
      fun m' hm' => h.2.2 (List.mem_cons_of_mem m hm')⟩)
    late _ ⟨hsound, hi, List.subset_append_right early late⟩
  rw [run, List.foldl_append]
  exact hrun.2.1

/-- While someone is waited for, some task can go on. -/
theorem Sound.progress (h : Sound rules moves p) [Inhabited α] (hcapacity : 0 < rules.capacity)
    (hopen : 0 < p.remaining) : ∃ m, Pool.step rules p m ≠ p := by
  have hmoves : ∀ {m : Move ι α} {i : ι} {x y : Phase}, p.phase i = x → x ≠ y →
      (Pool.step rules p m).phase i = y → ∃ m, Pool.step rules p m ≠ p := by
    intro m i x y hx hxy hy
    exact ⟨m, fun heq => hxy (by rw [← hx, ← hy, heq])⟩
  -- a task with a place can finish or give it back
  have hplaced : ∀ i, 0 < placed (p.phase i) → ∃ m, Pool.step rules p m ≠ p := by
    intro i hi
    cases hphase : p.phase i with
    | working => exact hmoves (m := .finish i default) (y := .holding) hphase (by simp) (by
        simp [Pool.step, hphase])
    | holding => exact hmoves (m := .release i) (y := .leaving) hphase (by simp) (by
        simp [Pool.step, hphase])
    | waiting | leaving | gone => simp [hphase, placed] at hi
  obtain ⟨i, hi⟩ := exists_of_tally_pos (by rw [← h.remaining_eq]; exact hopen)
  cases hphase : p.phase i with
  | waiting =>
    by_cases hfull : p.taken < rules.capacity
    · exact hmoves (m := .start i) (y := .working) hphase (by simp) (by
        simp [Pool.step, hphase, hfull])
    · have htaken : 0 < tally placed p.phase := by
        rw [← h.taken_eq]
        omega
      obtain ⟨j, hj⟩ := exists_of_tally_pos htaken
      exact hplaced j hj
  | working | holding => exact hplaced i (by simp [hphase, placed])
  | leaving => exact hmoves (m := .leave i) (y := .gone) hphase (by simp) (by
      simp [Pool.step, hphase])
  | gone => simp [hphase, awaited] at hi

def stepsLeft (p : Pool ι γ) : ℕ := tally ahead p.phase + if p.expired then 0 else 1

theorem stepsLeft_start (ι γ : Type*) [Fintype ι] :
    stepsLeft (start ι γ) = 4 * Fintype.card ι + 1 := by
  simp [stepsLeft, start, tally, ahead, mul_comm]

theorem stepsLeft_advance {i : ι} {x : Phase} (hless : ahead x < ahead (p.phase i))
    {taken remaining : ℕ} {slots : ι → Option γ} :
    stepsLeft { p with
      taken := taken
      remaining := remaining
      phase := Function.update p.phase i x
      slots := slots } < stepsLeft p := by
  have hahead := tally_update ahead p.phase i x
  simp only [stepsLeft]
  omega

/-- A step that is possible leaves fewer steps. -/
theorem stepsLeft_step (rules : Rules ι α γ) (p : Pool ι γ) (m : Move ι α) :
    step rules p m = p ∨ stepsLeft (step rules p m) < stepsLeft p := by
  cases m with
  | expire =>
    cases hexpired : p.expired with
    | true =>
      left
      rw [Pool.step, ← hexpired]
    | false =>
      right
      simp [stepsLeft, Pool.step, hexpired]
  | start i | skip i | finish i answer | release i | leave i =>
    simp only [Pool.step]
    split_ifs with hi
    · exact .inr (stepsLeft_advance (by simp [hi, ahead]))
    · exact .inl rfl

/-- Every move is possible where it is made. -/
def Possible (rules : Rules ι α γ) (p : Pool ι γ) (moves : List (Move ι α)) : Prop :=
  Along (step rules) (fun p m => step rules p m ≠ p) p moves

theorem length_le_stepsLeft (rules : Rules ι α γ) {moves : List (Move ι α)}
    {p : Pool ι γ} (h : Possible rules p moves) : moves.length ≤ stepsLeft p := by
  induction moves generalizing p with
  | nil => exact Nat.zero_le _
  | cons m moves ih =>
    have hless := (stepsLeft_step rules p m).resolve_left h.1
    have hrest := ih h.2
    rw [List.length_cons]
    omega

end Pool

end CardScope.Library

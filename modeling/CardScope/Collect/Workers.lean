import CardScope.Collect.Collector
import CardScope.Library.Pool

/-! # The processes of a round

Each card of a round is asked by a process of its own, at most eight at a time, and each answer goes
to the place of its card. In whatever order the processes start and end, the round gets the cards
that it would get by asking one after the other.
-/

namespace CardScope.Collect
open Library Model Hub

/-- How the process of a card ends. -/
inductive Ended where
  | failed
  | done (r : CardReadings)

instance : Inhabited Ended := ⟨.failed⟩

def Ended.worker : Ended → CardWorker
  | .failed => .failed
  | .done r => .done r

def Host.answering (h : Host) (answers : ℕ → CardWorker) : Host := { h with card := answers }

variable (c : Collector) (h : Host)

def written (i : Fin (known c h).length) (w : CardWorker) : GPU :=
  queried (h.answering (fun _ => w)) i (known c h)[i]

/-- The semaphore of the round and what its goroutines write. -/
def processes : Pool.Rules (Fin (known c h).length) Ended GPU where
  capacity := 8
  finished := fun i e => written c h i e.worker
  skipped := fun i => written c h i .notStarted

def asked (moves : List (Pool.Move (Fin (known c h).length) Ended)) :
    Pool (Fin (known c h).length) GPU :=
  Pool.run (processes c h) (Pool.start _ _) moves

variable {c h}

theorem written_answering (i : Fin (known c h).length) (answers : ℕ → CardWorker) :
    written c h i (answers i) = queried (h.answering answers) i (known c h)[i] := rfl

/-- Over all orders of the steps at most eight processes ask at a time, every place ends with the
answer of its own card or a timeout, and the round comes to its end. -/
theorem cards_of_processes (c : Collector) (h : Host)
    (moves : List (Pool.Move (Fin (known c h).length) Ended)) :
    (Finset.univ.filter (fun i => (asked c h moves).phase i = .working)).card ≤ 8 ∧
    ((asked c h moves).remaining = 0 → ∃ answers : ℕ → CardWorker,
      (∀ i : Fin (known c h).length, (∃ e, .finish i e ∈ moves ∧ answers i = Ended.worker e) ∨
        answers i = .notStarted ∧ (asked c h moves).expired = true) ∧
      ∀ i : Fin (known c h).length, ∀ later, (asked c h (moves ++ later)).slots i =
        some (queried (h.answering answers) i (known c h)[i])) ∧
    (0 < (asked c h moves).remaining →
      ∃ m, Pool.step (processes c h) (asked c h moves) m ≠ asked c h moves) ∧
    (Pool.Possible (processes c h) (Pool.start _ _) moves →
      moves.length ≤ 4 * (known c h).length + 1) := by
  have hsound := Pool.sound_run (processes c h) moves
  refine ⟨hsound.working_le, fun hdone => ?_, fun hopen => hsound.progress (Nat.succ_pos 7) hopen,
    fun hpossible => ?_⟩
  · choose result hslot hwritten using hsound.all_written hdone
    -- what the process of each card has answered
    have hanswer : ∀ i, ∃ w, result i = written c h i w ∧
        ((∃ e, .finish i e ∈ moves ∧ w = Ended.worker e) ∨
          w = .notStarted ∧ (asked c h moves).expired = true) := by
      intro i
      rcases hwritten i with ⟨e, hm, heq⟩ | ⟨heq, hexpired⟩
      · exact ⟨e.worker, heq, .inl ⟨e, hm, rfl⟩⟩
      · exact ⟨.notStarted, heq, .inr ⟨rfl, hexpired⟩⟩
    choose w hw hcause using hanswer
    refine ⟨fun i => if hi : i < (known c h).length then w ⟨i, hi⟩ else .notStarted,
      fun i => ?_, fun i later => ?_⟩
    · simpa using hcause i
    · rw [← written_answering, asked, Pool.slot_run (processes c h) moves later (hslot i), hw]
      simp
  · have hlength := Pool.length_le_stepsLeft (processes c h) hpossible
    rwa [Pool.stepsLeft_start, Fintype.card_fin] at hlength

end CardScope.Collect

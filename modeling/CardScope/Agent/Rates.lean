import CardScope.Agent.Batches
import CardScope.Hub.Api
import CardScope.Library.Runs
import CardScope.Library.Windows

/-! # Uploads under the rate limit

A tick of the upload loop sends up to twenty samples, and the hub counts the uploads of a node in
windows of one minute. No upload is refused exactly when no window receives more than 600.
-/

namespace CardScope.Agent
open Library Model Hub

/-! ## The counter of one key -/

/-- A request as the limiter sees it. -/
structure Arrival where
  now : ℤ
  key : String
  limit : ℕ

def admits (rates : Rates) (a : Arrival) : Bool := (allowed rates a.now a.key a.limit).1

def counted (rates : Rates) (a : Arrival) : Rates := (allowed rates a.now a.key a.limit).2

/-- Even without the windows that have run out there are too many counters. -/
def Crowded (rates : Rates) (now : ℤ) : Prop := (trimRates rates now).rows.length > 4096

instance (rates : Rates) (now : ℤ) : Decidable (Crowded rates now) :=
  inferInstanceAs (Decidable ((trimRates rates now).rows.length > 4096))

def windowOf (rates : Rates) (key : String) : Option Window :=
  (rates.find? key).map (fun r => ⟨r.count, r.reset⟩)

def timesOf (key : String) (arrivals : List Arrival) : List ℤ :=
  (arrivals.filter (fun a => a.key = key)).map Arrival.now

section Counter

variable {rates : Rates} {a : Arrival} {key : String} {limit : ℕ} {now : ℤ}

theorem windowOf_put (rates : Rates) (r : Rate) (key : String) : windowOf (rates.put r) key =
    if r.key = key then some ⟨r.count, r.reset⟩ else windowOf rates key := by
  rw [windowOf, Table.find?_put]
  split_ifs <;> rfl

theorem carried_trimRates (rates : Rates) (now : ℤ) (key : String) :
    Carried now (windowOf rates key) (windowOf (trimRates rates now) key) := by
  unfold trimRates
  split_ifs
  · simp only [windowOf, Table.find?_keep]
    cases rates.find? key with
    | none => exact .inl rfl
    | some r =>
      by_cases h : now > r.reset
      · exact .inr ⟨by simp [Option.filter, h], _, rfl, h⟩
      · exact .inl (by simp [Option.filter, h])
  · exact .inl rfl

theorem allowed_of_crowded (h : Crowded rates now) :
    allowed rates now key limit = (false, trimRates rates now) :=
  if_pos h

/-- Unless there are too many counters, a request takes a place in the window of its key; it is
admitted when the count stays within the limit. -/
theorem allowed_of_not_crowded (h : ¬ Crowded rates now) :
    let w := Window.next 60000 (windowOf rates key) now
    (allowed rates now key limit).2 = (trimRates rates now).put ⟨key, w.count, w.reset⟩ ∧
      (1 ≤ limit → (allowed rates now key limit).1 = decide (w.count ≤ limit)) := by
  rw [← next_of_carried 60000 (carried_trimRates rates now key)]
  rw [windowOf]
  unfold allowed
  simp only [if_neg (show ¬ (trimRates rates now).rows.length > 4096 from h)]
  cases hr : (trimRates rates now).find? key with
  | none => exact ⟨rfl, fun hlimit => (decide_eq_true hlimit).symm⟩
  | some r =>
    obtain rfl : r.key = key := (Table.find?_eq_some.mp hr).2
    by_cases hreset : now > r.reset
    · simp only [Option.map_some, Window.next, if_pos hreset]
      exact ⟨trivial, fun hlimit => (decide_eq_true hlimit).symm⟩
    · simp only [Option.map_some, Window.next, if_neg hreset]
      exact ⟨trivial, fun _ => trivial⟩

/-- Requests under other keys leave the window alone, or drop it when it has run out. -/
theorem carried_other (hkey : a.key ≠ key) :
    Carried a.now (windowOf rates key) (windowOf (counted rates a) key) := by
  have htrim := carried_trimRates rates a.now key
  unfold counted
  by_cases h : Crowded rates a.now
  · rw [allowed_of_crowded h]
    exact htrim
  · rw [(allowed_of_not_crowded h).1, windowOf_put, if_neg hkey]
    exact htrim

theorem windowOf_own (h : ¬ Crowded rates a.now) : windowOf (counted rates a) a.key =
    some (Window.next 60000 (windowOf rates a.key) a.now) := by
  rw [counted, (allowed_of_not_crowded h).1, windowOf_put, if_pos rfl]

/-- All requests under a key are admitted exactly when there are never too many counters for them
and they fit into the windows. -/
theorem along_admits_iff {arrivals : List Arrival} (hlimit : 1 ≤ limit)
    (hclock : arrivals.Pairwise (fun a b => a.now ≤ b.now))
    (hown : ∀ a ∈ arrivals, a.key = key → a.limit = limit) (rates : Rates) :
    Along counted (fun rates a => a.key = key → admits rates a = true) rates arrivals ↔
      Along counted (fun rates a => a.key = key → ¬ Crowded rates a.now) rates arrivals ∧
        Fits 60000 limit (windowOf rates key) (timesOf key arrivals) := by
  induction arrivals generalizing rates with
  | nil => exact iff_of_true trivial ⟨trivial, fits_nil _ _ _⟩
  | cons a rest ih =>
    rw [List.pairwise_cons] at hclock
    have hrest := ih hclock.2 (fun b hb => hown b (List.mem_cons_of_mem _ hb)) (counted rates a)
    by_cases hkey : a.key = key
    · subst hkey
      have htimes : timesOf a.key (a :: rest) = a.now :: timesOf a.key rest := by simp [timesOf]
      rw [Along, Along, hrest, htimes, fits_cons]
      by_cases h : Crowded rates a.now
      · have hno : admits rates a = false := congrArg Prod.fst (allowed_of_crowded h)
        simp [h, hno]
      · have hyes : admits rates a = true ↔
            (Window.next 60000 (windowOf rates a.key) a.now).count ≤ limit := by
          have hlim := hown a List.mem_cons_self rfl
          rw [admits, (allowed_of_not_crowded h).2 (hlim ▸ hlimit), hlim, decide_eq_true_eq]
        rw [windowOf_own h, hyes]
        simp only [h, not_false_eq_true, forall_const, true_and]
        exact and_left_comm
    · have htimes : timesOf key (a :: rest) = timesOf key rest := by simp [timesOf, hkey]
      have hlater : ∀ t ∈ (timesOf key rest).head?, a.now ≤ t := by
        intro t ht
        obtain ⟨b, hb, rfl⟩ := List.mem_map.mp (List.mem_of_mem_head? ht)
        exact hclock.1 b (List.mem_filter.mp hb).1
      rw [Along, Along, hrest, htimes, fits_of_carried (carried_other hkey) hlater]
      simp only [hkey, false_implies, true_and]

end Counter

/-! ## The upload loop -/

/-- One upload: what the hub counted since the one before, and the readings of both clocks. -/
structure Turn where
  others : List Arrival
  sent : ℤ
  now : ℤ

/-- The counters of the hub, the uploads of the running tick, and whether one was refused. -/
structure Limiter where
  rates : Rates
  uploads : ℕ
  refused : Bool

def Config.rateKey (c : Config) : String := "node/" ++ c.nodeID

def Config.arrival (c : Config) (now : ℤ) : Arrival := ⟨now, c.rateKey, 600⟩

/-- A hub that accepts what its limiter admits. -/
def limited (c : Config) (turn : ℕ → Turn) : Remote Limiter where
  clock w := (turn w.uploads).sent
  post w _ :=
    let t := turn w.uploads
    let rates := t.others.foldl counted w.rates
    (admits rates (c.arrival t.now),
      { rates := counted rates (c.arrival t.now)
        uploads := w.uploads + 1
        refused := w.refused || !admits rates (c.arrival t.now) })

/-- The handler of uploads counts the requests of a node, and answers 429 when one is not
admitted. -/
theorem snapshots_limited (p : Platform) (d : Draw) (h : HubState) (r : Request) {n : NodeRow}
    (hn : authenticate p h.db (trimPrefix r.authorization "Bearer ") = some n) :
    let a : Arrival := ⟨d.now, "node/" ++ n.id, 600⟩
    ((Api.snapshots p d h r).1.status = 429 ↔ admits h.rates a = false) ∧
      (Api.snapshots p d h r).2.rates = counted h.rates a := by
  intro a
  have hcount : Api.countRequest d h ("node/" ++ n.id) 600 =
      (admits h.rates a, { h with rates := counted h.rates a }) := rfl
  unfold Api.snapshots
  rw [hn]
  simp only [hcount]
  cases admits h.rates a with
  | false => exact ⟨iff_of_true rfl rfl, rfl⟩
  | true =>
    simp only [Bool.not_true, Bool.false_eq_true, if_false]
    cases (decode p.json.snapshot r (4 * 2 ^ 20)).filter (fun s => s.nodeID = n.id) with
    | none => exact ⟨by simp [Api.fail, Api.respond], rfl⟩
    | some s =>
      simp only
      cases ingest d.now h.db s with
      | ok db => exact ⟨by simp [Api.respond], rfl⟩
      | error e =>
        cases e with
        | invalid message => exact ⟨by simp [Api.fail, Api.respond], rfl⟩
        | noRows => exact ⟨by simp [Api.fail, Api.respond], rfl⟩
        | constraint => exact ⟨by simp [Api.fail, Api.respond], rfl⟩

/-- One second of the client: what the sampling loop did to the directory since the last tick, and
the uploads of the tick. -/
structure Tick where
  produced : List File
  pruned : List String
  turn : ℕ → Turn

def Tick.enqueue (t : Tick) (q : Queue) : Queue :=
  (t.produced.foldl Table.put q).keep (fun f => f.name ∉ t.pruned)

def tick (c : Config) (x : Limiter × Queue) (t : Tick) : Limiter × Queue :=
  uploadBatch c (limited c t.turn) { x.1 with uploads := 0 } (t.enqueue x.2)

def uploadLoop (c : Config) (rates : Rates) (q : Queue) (ticks : List Tick) : Limiter × Queue :=
  ticks.foldl (tick c) (⟨rates, 0, false⟩, q)

/-! ## The uploads when none is refused -/

def sends (q : Queue) : List String := (uploadOrder (readDir q)).filter isSample

def turnArrivals (c : Config) (turn : ℕ → Turn) : ℕ → ℕ → List Arrival
  | _, 0 => []
  | k, n + 1 =>
    (turn k).others ++ c.arrival (turn k).now :: turnArrivals c turn (k + 1) n

def planned (c : Config) : Queue → List Tick → List Arrival
  | _, [] => []
  | q, t :: rest =>
    let waiting := t.enqueue q
    turnArrivals c t.turn 0 (sends waiting).length ++
      planned c (waiting.keep (fun f => f.name ∉ sends waiting)) rest

/-- The other requests come from elsewhere. -/
def Foreign (c : Config) (turn : ℕ → Turn) : Prop := ∀ k, ∀ a ∈ (turn k).others, a.key ≠ c.rateKey

def AllAdmitted (c : Config) : Rates → List Arrival → Prop :=
  Along counted (fun rates a => a.key = c.rateKey → admits rates a = true)

section Loop

variable {c : Config} {turn : ℕ → Turn} {rates : Rates} {q : Queue} {ticks : List Tick}

theorem allAdmitted_others {others : List Arrival} (hothers : ∀ a ∈ others, a.key ≠ c.rateKey)
    (rest : List Arrival) (rates : Rates) : AllAdmitted c rates (others ++ rest) ↔
      AllAdmitted c (others.foldl counted rates) rest := by
  induction others generalizing rates with
  | nil => exact Iff.rfl
  | cons a others ih =>
    rw [List.cons_append, AllAdmitted, Along]
    exact (and_iff_right (fun hkey => absurd hkey (hothers a List.mem_cons_self))).trans
      (ih (fun b hb => hothers b (List.mem_cons_of_mem _ hb)) _)

theorem allAdmitted_append (l l' : List Arrival) (rates : Rates) : AllAdmitted c rates (l ++ l') ↔
    AllAdmitted c rates l ∧ AllAdmitted c (l.foldl counted rates) l' := by
  induction l generalizing rates with
  | nil => exact (and_iff_right trivial).symm
  | cons a l ih =>
    have hih := ih (counted rates a)
    simp only [AllAdmitted, List.cons_append, Along, List.foldl_cons] at hih ⊢
    rw [hih, and_assoc]

theorem allAdmitted_turnArrivals (hforeign : Foreign c turn) (rates : Rates) (k n : ℕ) :
    let before := (turn k).others.foldl counted rates
    AllAdmitted c rates (turnArrivals c turn k (n + 1)) ↔
      admits before (c.arrival (turn k).now) = true ∧
        AllAdmitted c (counted before (c.arrival (turn k).now)) (turnArrivals c turn (k + 1) n) := by
  intro before
  rw [turnArrivals, allAdmitted_others (hforeign k), AllAdmitted, Along]
  exact and_congr_left' ⟨fun h => h rfl, fun h _ => h⟩

theorem sendFiles_refused (w : Limiter) (names : List String) (h : w.refused = true) :
    (sendFiles c (limited c turn) w q names).1.refused = true := by
  induction names generalizing w q with
  | nil => exact h
  | cons name rest ih =>
    have hpost : ∀ s, ((limited c turn).post w s).2.refused = true := by
      intro s
      simp [limited, h]
    by_cases hsample : isSample name = true
    · cases hf : q.find? name with
      | none =>
        rw [sendFiles_gone hsample hf]
        exact ih w h
      | some f =>
        rw [sendFiles_sample hsample hf]
        simp only
        split_ifs
        · exact ih _ (hpost _)
        · exact hpost (c.stamp ((limited c turn).clock w) f.snapshot)
    · rw [sendFiles_other hsample]
      exact ih w h

/-- One batch: when all its uploads are admitted its samples leave the queue, otherwise one is
refused. -/
theorem sendFiles_limited (hforeign : Foreign c turn) (w : Limiter) {names : List String}
    (hnodup : names.Nodup) (hnames : ∀ name ∈ names, q.HasKey name) :
    let n := (names.filter isSample).length
    let arrivals := turnArrivals c turn w.uploads n
    (AllAdmitted c w.rates arrivals → sendFiles c (limited c turn) w q names =
      (⟨arrivals.foldl counted w.rates, w.uploads + n, w.refused⟩,
        q.keep (fun f => f.name ∉ names.filter isSample))) ∧
    (¬ AllAdmitted c w.rates arrivals →
      (sendFiles c (limited c turn) w q names).1.refused = true) := by
  induction names generalizing w q with
  | nil => exact ⟨fun _ => Prod.ext rfl (keep_nil q).symm, fun h => absurd trivial h⟩
  | cons name rest ih =>
    rw [List.nodup_cons] at hnodup
    by_cases hsample : isSample name = true
    · obtain ⟨f, hf⟩ := Option.ne_none_iff_exists'.mp (fun hnone =>
        Table.find?_eq_none_iff.mp hnone (hnames name List.mem_cons_self))
      have hrest : ∀ name' ∈ rest, (q.keep (fun g => g.name ≠ name)).HasKey name' := by
        intro name' hname'
        obtain ⟨g, hg, hkey⟩ := hnames name' (List.mem_cons_of_mem _ hname')
        have hne : name' ≠ name := by
          rintro rfl
          exact hnodup.1 hname'
        have hfound := (find?_keep_other hne).trans (Table.find?_eq_some.mpr ⟨hg, hkey⟩)
        exact ⟨g, Table.find?_eq_some.mp hfound⟩
      let before := (turn w.uploads).others.foldl counted w.rates
      let answer := (limited c turn).post w (c.stamp ((limited c turn).clock w) f.snapshot)
      have hanswer : answer.1 = admits before (c.arrival (turn w.uploads).now) := rfl
      have hsend : sendFiles c (limited c turn) w q (name :: rest) =
          if answer.1 then sendFiles c (limited c turn) answer.2 (q.keep (fun g => g.name ≠ name)) rest
          else (answer.2, q) := sendFiles_sample hsample hf
      have hadmitted : AllAdmitted c w.rates (turnArrivals c turn w.uploads
          ((rest.filter isSample).length + 1)) ↔ answer.1 = true ∧ AllAdmitted c
            (counted before (c.arrival (turn w.uploads).now))
            (turnArrivals c turn (w.uploads + 1) (rest.filter isSample).length) :=
        allAdmitted_turnArrivals hforeign w.rates w.uploads _
      simp only [List.filter_cons_of_pos hsample, List.length_cons, hadmitted, hsend]
      by_cases hok : answer.1 = true
      · have hrefused : answer.2.refused = w.refused := by
          rw [hanswer] at hok
          simp [answer, limited, before, hok]
        obtain ⟨hall, hnot⟩ := ih answer.2 hnodup.2 hrest
        rw [if_pos hok]
        refine ⟨fun h => ?_, fun h => hnot (fun hlater => h ⟨hok, hlater⟩)⟩
        rw [hall h.2, hrefused, keep_cons, turnArrivals, List.foldl_append, List.foldl_cons]
        refine Prod.ext ?_ rfl
        simp only [answer, limited]
        congr 1
        omega
      · rw [if_neg hok]
        refine ⟨fun h => absurd h.1 hok, fun _ => ?_⟩
        rw [hanswer, Bool.not_eq_true] at hok
        simp [answer, limited, before, hok]
    · rw [List.filter_cons_of_neg hsample, sendFiles_other hsample]
      exact ih w hnodup.2 (fun name' hname' => hnames name' (List.mem_cons_of_mem _ hname'))

theorem tick_limited {t : Tick} (hforeign : Foreign c t.turn) (w : Limiter) (q : Queue) :
    let waiting := t.enqueue q
    let arrivals := turnArrivals c t.turn 0 (sends waiting).length
    (AllAdmitted c w.rates arrivals → ∃ n, tick c (w, q) t =
      (⟨arrivals.foldl counted w.rates, n, w.refused⟩,
        waiting.keep (fun f => f.name ∉ sends waiting))) ∧
    (¬ AllAdmitted c w.rates arrivals → (tick c (w, q) t).1.refused = true) := by
  have hbatch := sendFiles_limited (q := t.enqueue q) hforeign { w with uploads := 0 }
    (nodup_uploadOrder (nodup_readDir (t.enqueue q)))
    (fun name hname => mem_readDir.mp (mem_of_uploadOrder hname))
  exact ⟨fun h => ⟨_, hbatch.1 h⟩, hbatch.2⟩

theorem run_refused (ticks : List Tick) (x : Limiter × Queue) (h : x.1.refused = true) :
    (ticks.foldl (tick c) x).1.refused = true :=
  foldl_invariant (tick c) (fun _ x => x.1.refused = true)
    (fun _ _ _ hx => sendFiles_refused _ _ hx) ticks x h

/-- No upload of a run is refused exactly when each of those that it makes then is admitted. -/
theorem run_refused_iff (hforeign : ∀ t ∈ ticks, Foreign c t.turn) (w : Limiter) (q : Queue)
    (hw : w.refused = false) : (ticks.foldl (tick c) (w, q)).1.refused = false ↔
      AllAdmitted c w.rates (planned c q ticks) := by
  induction ticks generalizing w q with
  | nil => exact iff_of_true hw trivial
  | cons t rest ih =>
    obtain ⟨hall, hnot⟩ := tick_limited (hforeign t List.mem_cons_self) w q
    rw [planned, allAdmitted_append, List.foldl_cons]
    by_cases h : AllAdmitted c w.rates (turnArrivals c t.turn 0 (sends (t.enqueue q)).length)
    · obtain ⟨n, htick⟩ := hall h
      rw [htick, and_iff_right h]
      exact ih (fun t ht => hforeign t (List.mem_cons_of_mem _ ht)) _ _ hw
    · refine iff_of_false (fun hfalse => ?_) (fun hyes => h hyes.1)
      rw [run_refused rest _ (hnot h)] at hfalse
      cases hfalse

theorem limit_of_key (hforeign : ∀ t ∈ ticks, Foreign c t.turn) :
    ∀ a ∈ planned c q ticks, a.key = c.rateKey → a.limit = 600 := by
  have hturn : ∀ {turn : ℕ → Turn}, Foreign c turn → ∀ n k, ∀ a ∈ turnArrivals c turn k n,
      a.key = c.rateKey → a.limit = 600 := by
    intro turn hturn n
    induction n with
    | zero => exact fun k a ha => absurd ha List.not_mem_nil
    | succ n ih =>
      intro k a ha hkey
      rcases List.mem_append.mp ha with ha | ha
      · exact absurd hkey (hturn k a ha)
      · rcases List.mem_cons.mp ha with rfl | ha
        · rfl
        · exact ih (k + 1) a ha hkey
  induction ticks generalizing q with
  | nil => exact fun a ha => absurd ha List.not_mem_nil
  | cons t rest ih =>
    intro a ha
    rcases List.mem_append.mp ha with ha | ha
    · exact hturn (hforeign t List.mem_cons_self) _ _ a ha
    · exact ih (fun t ht => hforeign t (List.mem_cons_of_mem _ ht)) a ha

/-- No upload of a run is refused by the limiter exactly when there are never too many counters for
one of its uploads, and no window of a minute receives more than 600 of them. -/
theorem no_upload_refused_iff (c : Config) (rates : Rates) (q : Queue) (ticks : List Tick)
    (hforeign : ∀ t ∈ ticks, Foreign c t.turn)
    (hclock : (planned c q ticks).Pairwise (fun a b => a.now ≤ b.now)) :
    (uploadLoop c rates q ticks).1.refused = false ↔
      Along counted (fun rates a => a.key = c.rateKey → ¬ Crowded rates a.now) rates
          (planned c q ticks) ∧
        Fits 60000 600 (windowOf rates c.rateKey) (timesOf c.rateKey (planned c q ticks)) :=
  (run_refused_iff hforeign ⟨rates, 0, false⟩ q rfl).trans
    (along_admits_iff (by decide) hclock (limit_of_key hforeign) rates)

end Loop

/-! ## Backlogs -/

section Backlog

variable {c : Config} {turn : ℕ → Turn} {q : Queue} {ticks : List Tick}

theorem length_sends (hq : ∀ f ∈ q, isSample f.name = true) :
    (sends q).length = min 20 q.rows.length := by
  have hall : sends q = uploadOrder (readDir q) := by
    apply List.filter_eq_self.mpr
    intro name hname
    obtain ⟨f, hf, rfl⟩ := mem_readDir.mp (mem_of_uploadOrder hname)
    exact hq f hf
  rw [hall, length_uploadOrder, length_readDir]

theorem length_sent_add (q : Queue) :
    (q.keep (fun f => f.name ∉ sends q)).rows.length + (sends q).length = q.rows.length := by
  have hnodup : (sends q).Nodup := (nodup_uploadOrder (nodup_readDir q)).filter _
  have hsub : ∀ name ∈ sends q, name ∈ readDir q :=
    fun name h => mem_of_uploadOrder (List.mem_filter.mp h).1
  have hperm : (sends q).Perm ((readDir q).filter (fun name => name ∈ sends q)) := by
    apply (List.perm_ext_iff_of_nodup hnodup ((nodup_readDir q).filter _)).mpr
    intro name
    rw [List.mem_filter, decide_eq_true_eq]
    exact ⟨fun h => ⟨hsub name h, h⟩, fun h => h.2⟩
  have hkeep := readDir_keep q (fun name => name ∉ sends q)
  rw [← length_readDir (q.keep _), hkeep, hperm.length_eq, ← length_readDir q, add_comm]
  simpa using (List.length_eq_length_filter_add (l := readDir q) (fun name => name ∈ sends q)).symm

theorem length_put_le (q : Queue) (f : File) : q.rows.length ≤ (q.put f).rows.length := by
  have hsame : (q.rows.filter (fun g => g.name = f.name)).length ≤ 1 := by
    rw [Table.filter_key]
    cases q.find? f.name with
    | none => exact Nat.zero_le 1
    | some g => exact le_rfl
  have hsplit := List.length_eq_length_filter_add (l := q.rows) (fun g => g.name = f.name)
  have hput : (q.put f).rows.length =
      (q.rows.filter (fun g => !decide (g.name = f.name))).length + 1 := by
    simp [Table.put, Table.keep]
  omega

theorem timesOf_append (key : String) (l l' : List Arrival) :
    timesOf key (l ++ l') = timesOf key l ++ timesOf key l' := by
  rw [timesOf, List.filter_append, List.map_append]
  rfl

theorem timesOf_turnArrivals (hforeign : Foreign c turn) (k n : ℕ) :
    timesOf c.rateKey (turnArrivals c turn k n) = (List.range' k n).map (fun i => (turn i).now) := by
  induction n generalizing k with
  | zero => rfl
  | succ n ih =>
    have hothers : timesOf c.rateKey (turn k).others = [] := by
      rw [timesOf, List.filter_eq_nil_iff.mpr (fun a ha => by simpa using hforeign k a ha)]
      rfl
    have hown : timesOf c.rateKey (c.arrival (turn k).now :: turnArrivals c turn (k + 1) n) =
        (turn k).now :: timesOf c.rateKey (turnArrivals c turn (k + 1) n) := by
      simp [timesOf, Config.arrival]
    rw [turnArrivals, timesOf_append, hothers, List.nil_append, hown, ih]
    rfl

/-- Ticks are a second apart, and each batch ends within its second. -/
def Timed : ℤ → List Tick → Prop
  | _, [] => True
  | start, t :: rest =>
    (∀ k, start ≤ (t.turn k).now ∧ (t.turn k).now < start + 1000) ∧ Timed (start + 1000) rest

theorem mem_timesOf_planned {start : ℤ} (hforeign : ∀ t ∈ ticks, Foreign c t.turn)
    (htimed : Timed start ticks) {now : ℤ} (h : now ∈ timesOf c.rateKey (planned c q ticks)) :
    start ≤ now ∧ now < start + 1000 * ticks.length := by
  induction ticks generalizing q start with
  | nil => exact absurd h List.not_mem_nil
  | cons t rest ih =>
    rw [planned, timesOf_append, timesOf_turnArrivals (hforeign t List.mem_cons_self)] at h
    rw [List.length_cons]
    rcases List.mem_append.mp h with h | h
    · obtain ⟨k, -, rfl⟩ := List.mem_map.mp h
      have hk := htimed.1 k
      push_cast
      omega
    · have hlater := ih (fun t ht => hforeign t (List.mem_cons_of_mem _ ht)) htimed.2 h
      push_cast
      omega

/-- Only samples come into the queue, and nothing is pruned. -/
def Growing (t : Tick) : Prop := t.pruned = [] ∧ ∀ f ∈ t.produced, isSample f.name = true

theorem Growing.enqueue {t : Tick} (ht : Growing t) (hq : ∀ f ∈ q, isSample f.name = true) :
    (∀ f ∈ t.enqueue q, isSample f.name = true) ∧
      q.rows.length ≤ (t.enqueue q).rows.length := by
  have hkeep : t.enqueue q = t.produced.foldl Table.put q := by
    rw [Tick.enqueue, ht.1]
    exact keep_nil _
  rw [hkeep]
  have hput : ∀ (f : File) (rest : List File) (q' : Queue),
      ((∀ g ∈ f :: rest, isSample g.name = true) ∧ (∀ g ∈ q', isSample g.name = true) ∧
        q.rows.length ≤ q'.rows.length) →
      (∀ g ∈ rest, isSample g.name = true) ∧ (∀ g ∈ q'.put f, isSample g.name = true) ∧
        q.rows.length ≤ (q'.put f).rows.length := by
    rintro f rest q' ⟨hfiles, hsamples, hlength⟩
    refine ⟨fun g hg => hfiles g (List.mem_cons_of_mem _ hg), fun g hg => ?_,
      hlength.trans (length_put_le q' f)⟩
    rcases Table.mem_put.mp hg with rfl | hg
    · exact hfiles g List.mem_cons_self
    · exact hsamples g hg.1
  exact (foldl_invariant Table.put (fun (rest : List File) (q' : Queue) =>
    (∀ g ∈ rest, isSample g.name = true) ∧ (∀ g ∈ q', isSample g.name = true) ∧
      q.rows.length ≤ q'.rows.length) hput t.produced q ⟨ht.2, hq, le_rfl⟩).2

/-- A backlog is sent at twenty samples a second. -/
theorem le_length_planned (hforeign : ∀ t ∈ ticks, Foreign c t.turn)
    (hgrowing : ∀ t ∈ ticks, Growing t) (hq : ∀ f ∈ q, isSample f.name = true) :
    min q.rows.length (20 * ticks.length) ≤ (timesOf c.rateKey (planned c q ticks)).length := by
  induction ticks generalizing q with
  | nil => simp
  | cons t rest ih =>
    obtain ⟨hsamples, hlength⟩ := (hgrowing t List.mem_cons_self).enqueue hq
    have hrest := ih (q := (t.enqueue q).keep (fun f => f.name ∉ sends (t.enqueue q)))
      (fun t ht => hforeign t (List.mem_cons_of_mem _ ht))
      (fun t ht => hgrowing t (List.mem_cons_of_mem _ ht))
      (fun f hf => hsamples f (Table.mem_keep.mp hf).1)
    have hsent := length_sent_add (t.enqueue q)
    rw [length_sends hsamples] at hsent
    rw [planned, timesOf_append, timesOf_turnArrivals (hforeign t List.mem_cons_self),
      List.length_append, List.length_map, List.length_range', length_sends hsamples,
      List.length_cons]
    omega

/-- Whatever is produced meanwhile, an upload is refused by the time a backlog of more than 600
samples has been replayed for half a minute. -/
theorem backlog_refused {rates : Rates} {start : ℤ} (hforeign : ∀ t ∈ ticks, Foreign c t.turn)
    (hclock : (planned c q ticks).Pairwise (fun a b => a.now ≤ b.now))
    (htimed : Timed start ticks) (hgrowing : ∀ t ∈ ticks, Growing t)
    (hq : ∀ f ∈ q, isSample f.name = true) (hwindow : windowOf rates c.rateKey = none)
    (hbacklog : 600 < q.rows.length) (hticks : ticks.length = 31) :
    (uploadLoop c rates q ticks).1.refused = true := by
  rw [← Bool.not_eq_false]
  intro hnone
  have hadmitted := (run_refused_iff hforeign ⟨rates, 0, false⟩ q rfl).mp hnone
  have hfits := ((along_admits_iff (by decide) hclock (limit_of_key hforeign) rates).mp hadmitted).2
  have hmany := le_length_planned hforeign hgrowing hq
  rw [hticks] at hmany
  rw [hwindow] at hfits
  cases htimes : timesOf c.rateKey (planned c q ticks) with
  | nil =>
    rw [htimes, List.length_nil] at hmany
    omega
  | cons first rest =>
    -- half a minute is less than a window
    have hwithin : ∀ now ∈ first :: rest, start ≤ now ∧ now < start + 1000 * ticks.length :=
      fun now h => mem_timesOf_planned hforeign htimed (htimes ▸ h)
    rw [htimes, Fits, windows_eq_singleton (fun now h => by
      have hfirst := hwithin first List.mem_cons_self
      have hnow := hwithin now (List.mem_cons_of_mem _ h)
      rw [hticks] at hfirst hnow
      push_cast at hfirst hnow
      omega)] at hfits
    have hfew := hfits _ (List.mem_singleton_self _)
    rw [htimes] at hmany
    omega

end Backlog

section Fixtures

def testConfig : Config := ⟨"n", 5⟩

def waitingFile (i : ℕ) : File :=
  let s : Snapshot := { Hub.sample "n" i (1700000000000 + 5000 * i) with bootID := "0f" }
  ⟨fileName s, s, 1000, s.atMs⟩

theorem waitingFile_injective : Function.Injective (fun i => (waitingFile i).name) := by
  intro i j h
  have hboot : '-' ∉ "0f".toList := by decide
  have hseq := (fileName_inj hboot hboot (by simp [Hub.sample]) (by simp [Hub.sample]) h).2
  simpa [Hub.sample] using hseq

def backlog (n : ℕ) : Queue :=
  ⟨(List.range n).map waitingFile, by
    rw [List.map_map]
    exact List.nodup_range.map waitingFile_injective⟩

theorem length_backlog (n : ℕ) : (backlog n).rows.length = n := by
  simp [backlog]

theorem isSample_backlog (n : ℕ) : ∀ f ∈ backlog n, isSample f.name = true := by
  intro f hf
  obtain ⟨i, -, rfl⟩ := List.mem_map.mp hf
  exact isSample_fileName _

def quietTick (start : ℤ) : Tick := ⟨[], [], fun _ => ⟨[], start, start⟩⟩

def quietTicks (start : ℤ) : ℕ → List Tick
  | 0 => []
  | n + 1 => quietTick start :: quietTicks (start + 1000) n

theorem length_quietTicks (start : ℤ) (n : ℕ) : (quietTicks start n).length = n := by
  induction n generalizing start with
  | zero => rfl
  | succ n ih => rw [quietTicks, List.length_cons, ih]

theorem quietTick_of_mem {start : ℤ} {n : ℕ} {t : Tick} (h : t ∈ quietTicks start n) :
    ∃ now, t = quietTick now := by
  induction n generalizing start with
  | zero => exact absurd h List.not_mem_nil
  | succ n ih =>
    rcases List.mem_cons.mp h with rfl | h
    · exact ⟨start, rfl⟩
    · exact ih h

theorem foreign_quietTicks (c : Config) {start : ℤ} {n : ℕ} :
    ∀ t ∈ quietTicks start n, Foreign c t.turn := by
  intro t ht k a ha
  obtain ⟨now, rfl⟩ := quietTick_of_mem ht
  exact absurd ha List.not_mem_nil

theorem timed_quietTicks (start : ℤ) (n : ℕ) : Timed start (quietTicks start n) := by
  induction n generalizing start with
  | zero => exact trivial
  | succ n ih => exact ⟨fun k => ⟨le_rfl, by simp [quietTick]⟩, ih _⟩

theorem turnArrivals_quietTick (c : Config) (start : ℤ) (k n : ℕ) :
    turnArrivals c (quietTick start).turn k n = List.replicate n (c.arrival start) := by
  induction n generalizing k with
  | zero => rfl
  | succ n ih =>
    rw [turnArrivals, ih, List.replicate_succ]
    rfl

theorem clock_quietTicks (c : Config) (q : Queue) (start : ℤ) (n : ℕ) :
    (planned c q (quietTicks start n)).Pairwise (fun a b => a.now ≤ b.now) ∧
      ∀ a ∈ planned c q (quietTicks start n), start ≤ a.now := by
  induction n generalizing q start with
  | zero => exact ⟨List.Pairwise.nil, fun a ha => absurd ha List.not_mem_nil⟩
  | succ n ih =>
    obtain ⟨hpairwise, hlater⟩ := ih (((quietTick start).enqueue q).keep
      (fun f => f.name ∉ sends ((quietTick start).enqueue q))) (start + 1000)
    rw [quietTicks, planned, turnArrivals_quietTick]
    refine ⟨List.pairwise_append.mpr ⟨?_, hpairwise, fun a ha b hb => ?_⟩, fun a ha => ?_⟩
    · exact List.pairwise_replicate.mpr (.inr le_rfl)
    · rw [List.eq_of_mem_replicate ha]
      have hb := hlater b hb
      change start ≤ b.now
      omega
    · rcases List.mem_append.mp ha with ha | ha
      · rw [List.eq_of_mem_replicate ha]
        exact le_rfl
      · have ha := hlater a ha
        omega

end Fixtures

/-- Two samples that wait are not refused. -/
theorem two_samples_not_refused :
    (uploadLoop testConfig Table.empty (backlog 2) (quietTicks 1700010000000 1)).1.refused = false := by
  have htimes : timesOf testConfig.rateKey (planned testConfig (backlog 2)
      (quietTicks 1700010000000 1)) = [1700010000000, 1700010000000] := by decide +kernel
  refine (no_upload_refused_iff testConfig Table.empty (backlog 2) (quietTicks 1700010000000 1)
    (foreign_quietTicks testConfig) (clock_quietTicks testConfig _ _ _).1).mpr
      ⟨by decide +kernel, ?_⟩
  rw [htimes]
  simp [windowOf, Fits, windows_cons]

/-- After ten minutes without a connection the replay is refused, and the live samples with it. -/
theorem replay_refused : ¬ ∀ (c : Config) (rates : Rates) (q : Queue) (start : ℤ)
    (ticks : List Tick), (∀ f ∈ q, isSample f.name = true) → (∀ t ∈ ticks, Foreign c t.turn) →
      (planned c q ticks).Pairwise (fun a b => a.now ≤ b.now) → Timed start ticks →
      (uploadLoop c rates q ticks).1.refused = false := by
  intro h
  have hclock := (clock_quietTicks testConfig (backlog 601) 1700010000000 31).1
  have hlong : 600 < (backlog 601).rows.length := by
    rw [length_backlog]
    omega
  have hrefused : (uploadLoop testConfig Table.empty (backlog 601)
      (quietTicks 1700010000000 31)).1.refused = true := by
    refine backlog_refused (foreign_quietTicks testConfig) hclock (timed_quietTicks _ _)
      (fun t ht => ?_) (isSample_backlog 601) rfl hlong (length_quietTicks _ _)
    obtain ⟨now, rfl⟩ := quietTick_of_mem ht
    exact ⟨rfl, fun f hf => absurd hf List.not_mem_nil⟩
  have hnone := h testConfig Table.empty (backlog 601) 1700010000000 (quietTicks 1700010000000 31)
    (isSample_backlog 601) (foreign_quietTicks testConfig) hclock (timed_quietTicks _ _)
  rw [hrefused] at hnone
  cases hnone

end CardScope.Agent

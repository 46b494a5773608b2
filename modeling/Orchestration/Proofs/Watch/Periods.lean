import Orchestration.Proofs.Time.Nanoseconds
import Orchestration.Proofs.Watch.Passes

/-!
# Evaluations wait for a full period

A rule is due when its period has passed since it was last evaluated.  The period is cut to a
greatest span and the addition may have no result, and still it comes out as with whole numbers.  An
evaluation that is not due leaves everything as it is, so evaluating a rule again and again, at any
instants, runs it at times that are at least a period apart.
-/

set_option autoImplicit false

namespace Orchestration

namespace Watch.Rule

open FaultyStore (SameAt faultless)

/-- The period of the rule is over, in nanoseconds.  These are any whole numbers: a period may be
longer than every span. -/
def Waited (now : Instant) (rule : Rule) : Prop :=
  (rule.record.spec.period * nanosPerSecond : Int) ≤ now.nanos - rule.record.lastEvaluated.nanos

instance (now : Instant) (rule : Rule) : Decidable (rule.Waited now) :=
  inferInstanceAs (Decidable (_ ≤ _))

theorem Waited.notBefore {now : Instant} {rule : Rule} (waited : rule.Waited now) :
    rule.record.lastEvaluated.nanos ≤ now.nanos := by
  have period : (0 : Int) ≤ rule.record.spec.period * nanosPerSecond :=
    Int.mul_nonneg (Int.natCast_nonneg _) (Int.natCast_nonneg _)
  unfold Waited at waited
  omega

/-! ## The test -/

theorem isDue_iff (rule : Rule) {now : Instant} (ordinary : now.IsOrdinary)
    (ordinary' : rule.record.lastEvaluated.IsOrdinary) :
    rule.isDue now = true ↔ rule.Waited now := by
  -- the greatest span is longer than any two instants are apart, so the cut shows nowhere
  have waited : rule.Waited now ↔
      rule.record.lastEvaluated.nanos + rule.record.spec.span.length ≤ now.nanos := by
    have near := Instant.apart_lt ordinary rule.record.lastEvaluated
    rw [Waited, Spec.span, Span.length_ofSeconds]
    omega
  rw [waited, isDue]
  cases later : rule.record.lastEvaluated.add? rule.record.spec.span with
  | some next =>
    obtain ⟨nextOrdinary, exactly⟩ := Instant.add?_eq_some ordinary' later
    simp only [Instant.le_iff_nanos nextOrdinary ordinary]
    omega
  | none =>
    have beyond := Instant.add?_eq_none ordinary' later ordinary
    refine iff_of_false Bool.false_ne_true ?_
    omega

/-- Also in a leap second, a rule with a period is not due when it was just evaluated. -/
theorem isDue_again (rule : Rule) {now : Instant} (period : 0 < rule.record.spec.period)
    (just : rule.record.lastEvaluated = now) : rule.isDue now = false := by
  have whole : 0 < rule.record.spec.span.seconds := by
    rw [Spec.span, Span.ofSeconds]
    split
    · exact period
    · decide
  unfold isDue
  rw [just]
  cases later : now.add? rule.record.spec.span with
  | none => rfl
  | some next =>
    have late := Instant.add?_later whole later
    simp only [Instant.le, Bool.or_eq_false_iff, Bool.and_eq_false_iff, decide_eq_false_iff_not,
      beq_eq_false_iff_ne]
    omega

/-! ## One evaluation -/

/-- A run that did not fail: the rule was evaluated now and the store has it. -/
structure Ran {α : Type} (now : Instant) (rule : Rule) (outcome : Outcome MemoryStore α) :
    Prop where
  accepted : ∃ answer, outcome.result = .ok answer
  continues : Continues rule outcome.rule
  evaluated : outcome.rule.record.lastEvaluated = now
  stored : WatchStore.getRule rule.record.name outcome.store = .ok outcome.rule.record

theorem entered_evaluated (progress : String → Option Progress) (now : Instant)
    (points : List Point) (rule : Rule) :
    (rule.entered progress now points).1.record.lastEvaluated = now := by
  unfold entered
  simp only
  split <;> rfl

theorem save_ran (clock : Instant) (rule : Rule) (store : MemoryStore) :
    Ran rule.record.lastEvaluated rule (rule.save clock store) := by
  have known := fun record => MemoryStore.getRule_putRule record store
  have continues := (save_keeps clock rule store).1
  unfold save at continues ⊢
  cases stored : rule.stored with
  | true =>
    rw [stored] at continues
    exact ⟨⟨(), rfl⟩, continues, rfl, known { rule.record with updatedAt := some clock }⟩
  | false =>
    rw [stored] at continues
    exact ⟨⟨(), rfl⟩, continues, rfl, known rule.record⟩

theorem run_ran (around : Surroundings) (now : Instant) (rule : Rule) (store : MemoryStore)
    (record : Record) (known : WatchStore.getRule rule.record.name store = .ok record) :
    Ran now rule (rule.run around now store) := by
  obtain ⟨points, found⟩ := (MemoryStore.getRule_eq_ok_iff rule.record.name store record).mp known
  have data : rule.data store = .ok (Point.inOrder points) := by
    simp only [Rule.data, WatchStore.listData, MemoryStore.rule?, found, Except.map]
  have continues := (run_acts around now rule store).continues
  unfold run at continues ⊢
  rw [data] at continues ⊢
  generalize Point.inOrder points = ordered at continues ⊢
  have name := (entered_fires around.progress now ordered rule).1.name
  obtain ⟨⟨answer, accepted⟩, -, evaluated, stored⟩ :=
    save_ran around.clock (rule.entered around.progress now ordered).1 store
  rw [name] at stored
  refine ⟨⟨(rule.entered around.progress now ordered).1.record.state, ?_⟩, continues,
    evaluated.trans (entered_evaluated around.progress now ordered rule), stored⟩
  simp only [accepted, Except.map]

theorem evaluate_due (around : Surroundings) (now : Instant) (rule : Rule) (store : MemoryStore)
    (record : Record) (known : WatchStore.getRule rule.record.name store = .ok record)
    (due : rule.isDue now = true) :
    Ran now rule (rule.evaluate around now store) ∧
      let run := rule.run around now store
      rule.evaluate around now store = { run with result := run.result.map fun _ => () } := by
  obtain ⟨⟨answer, accepted⟩, continues, evaluated, stored⟩ := run_ran around now rule store record
    known
  rw [evaluate, if_pos due]
  exact ⟨⟨⟨(), (map_eq_ok_iff ..).mpr ⟨answer, accepted, rfl⟩⟩, continues, evaluated, stored⟩, rfl⟩

theorem evaluate_early {σ : Type} [WatchStore σ] (around : Surroundings) (now : Instant)
    (rule : Rule) (store : σ) (early : rule.isDue now = false) :
    rule.evaluate around now store = ⟨.ok (), rule, store, []⟩ := by
  rw [evaluate, if_neg (Bool.not_eq_true _ ▸ early)]

structure Turn where
  around : Surroundings
  now : Instant
  rule : Rule
  before : MemoryStore

namespace Turn

def outcome (turn : Turn) : Outcome MemoryStore Unit :=
  turn.rule.evaluate turn.around turn.now turn.before

def isRun (turn : Turn) : Bool :=
  turn.rule.isDue turn.now

/-- The evaluation runs the rule if its period is over, which works and is stored.  Otherwise it
changes nothing and dispatches nothing. -/
structure Gated (turn : Turn) : Prop where
  due : turn.isRun = true ↔ turn.rule.Waited turn.now
  ran : turn.rule.Waited turn.now → Ran turn.now turn.rule turn.outcome ∧
    let run := turn.rule.run turn.around turn.now turn.before
    turn.outcome = { run with result := run.result.map fun _ => () }
  idle : ¬ turn.rule.Waited turn.now → turn.outcome = ⟨.ok (), turn.rule, turn.before, []⟩

theorem gated (turn : Turn) (record : Record)
    (known : WatchStore.getRule turn.rule.record.name turn.before = .ok record)
    (ordinary : turn.now.IsOrdinary) (ordinary' : turn.rule.record.lastEvaluated.IsOrdinary) :
    turn.Gated := by
  have due := turn.rule.isDue_iff ordinary ordinary'
  refine ⟨due, fun waited => ?_, fun early => ?_⟩
  · exact evaluate_due turn.around turn.now turn.rule turn.before record known (due.mpr waited)
  · refine evaluate_early turn.around turn.now turn.rule turn.before ?_
    rw [← Bool.not_eq_true, due]
    exact early

end Turn

/-! ## A sequence of evaluations -/

def turns : Rule → MemoryStore → List (Surroundings × Instant) → List Turn
  | _, _, [] => []
  | rule, store, (around, now) :: rest =>
    let turn : Turn := ⟨around, now, rule, store⟩
    turn :: turns turn.outcome.rule turn.outcome.store rest

def runs (turns : List Turn) : List Instant :=
  (turns.filter Turn.isRun).map Turn.now

/-- Each evaluation runs the rule only if its period is over.  So any two runs, and the last
evaluation before them, are at least a period apart, and the last evaluation never goes back. -/
structure Paced (rule : Rule) (turns : List Turn) : Prop where
  each : ∀ turn ∈ turns, turn.Gated
  apart : (rule.record.lastEvaluated :: runs turns).Pairwise fun earlier later =>
    (rule.record.spec.period * nanosPerSecond : Int) ≤ later.nanos - earlier.nanos
  onward : (rule.record.lastEvaluated ::
    turns.map fun turn => turn.outcome.rule.record.lastEvaluated).Pairwise fun earlier later =>
      earlier.nanos ≤ later.nanos

theorem paced_nil (rule : Rule) : Paced rule [] :=
  ⟨by simp, List.pairwise_singleton .., List.pairwise_singleton ..⟩

theorem Paced.cons {rule : Rule} {turn : Turn} {rest : List Turn} (own : turn.rule = rule)
    (gated : turn.Gated) (later : Paced turn.outcome.rule rest) : Paced rule (turn :: rest) := by
  subst own
  obtain ⟨each, apart, onward⟩ := later
  by_cases waited : turn.rule.Waited turn.now
  · obtain ⟨⟨-, continues, evaluated, -⟩, -⟩ := gated.ran waited
    rw [evaluated, continues.spec] at apart
    rw [evaluated] at onward
    have late := waited
    unfold Waited at late
    have notBefore := waited.notBefore
    refine ⟨List.forall_mem_cons.mpr ⟨gated, each⟩, ?_, ?_⟩
    · rw [runs, List.filter_cons_of_pos (gated.due.mpr waited), List.map_cons]
      refine List.pairwise_cons.mpr ⟨fun instant member => ?_, apart⟩
      rcases List.mem_cons.mp member with rfl | behind
      · exact late
      · have further := (List.pairwise_cons.mp apart).1 instant behind
        omega
    · rw [List.map_cons, evaluated]
      refine List.pairwise_cons.mpr ⟨fun instant member => ?_, onward⟩
      rcases List.mem_cons.mp member with rfl | behind
      · exact notBefore
      · exact Int.le_trans notBefore ((List.pairwise_cons.mp onward).1 instant behind)
  · rw [gated.idle waited] at apart onward
    refine ⟨List.forall_mem_cons.mpr ⟨gated, each⟩, ?_, ?_⟩
    · rw [runs, List.filter_cons_of_neg fun due => waited (gated.due.mp due)]
      exact apart
    · rw [List.map_cons, gated.idle waited]
      refine List.pairwise_cons.mpr ⟨fun instant member => ?_, onward⟩
      rcases List.mem_cons.mp member with rfl | behind
      · exact Int.le_refl _
      · exact (List.pairwise_cons.mp onward).1 instant behind

theorem paced_turns (calls : List (Surroundings × Instant))
    (ordinary : ∀ call ∈ calls, call.2.IsOrdinary) (rule : Rule) (store : MemoryStore)
    (record : Record) (known : WatchStore.getRule rule.record.name store = .ok record)
    (ordinary' : rule.record.lastEvaluated.IsOrdinary) : Paced rule (rule.turns store calls) := by
  induction calls generalizing rule store record with
  | nil => exact paced_nil rule
  | cons call rest ih =>
    obtain ⟨around, now⟩ := call
    obtain ⟨first, behind⟩ := List.forall_mem_cons.mp ordinary
    let turn : Turn := ⟨around, now, rule, store⟩
    have gated : turn.Gated := turn.gated record known first ordinary'
    refine Paced.cons rfl gated ?_
    by_cases waited : rule.Waited now
    · obtain ⟨⟨-, continues, evaluated, stored⟩, -⟩ := gated.ran waited
      refine ih behind turn.outcome.rule turn.outcome.store turn.outcome.rule.record ?_ ?_
      · rw [continues.name]
        exact stored
      · rw [evaluated]
        exact first
    · rw [gated.idle waited]
      exact ih behind rule store record known ordinary'

/-! ## A second pass -/

section Passes

variable (around : Surroundings) (now : Instant) (store : MemoryStore)

theorem alone_settles (record : Record)
    (known : WatchStore.getRule record.name store = .ok record) :
    ∃ left, WatchStore.getRule record.name (alone around now store record).store = .ok left ∧
      left.name = record.name ∧
        (0 < left.spec.period → Rule.isDue now ⟨left, true⟩ = false) := by
  cases due : Rule.isDue now ⟨record, true⟩ with
  | true =>
    obtain ⟨⟨-, continues, evaluated, stored⟩, -⟩ :=
      evaluate_due around now ⟨record, true⟩ store record known due
    refine ⟨_, stored, continues.name, fun period => ?_⟩
    exact isDue_again ⟨_, true⟩ period evaluated
  | false =>
    rw [alone, evaluate_early around now _ store due]
    exact ⟨record, known, rfl, fun _ => due⟩

theorem evaluateAll_settles (named : store.Named) :
    let after := (evaluateAll around now store).2.1
    after.Named ∧ ∀ record ∈ after.ruleRecords, 0 < record.spec.period →
      Rule.isDue now ⟨record, true⟩ = false := by
  intro after
  obtain ⟨-, keys, -, each⟩ := evaluateAll_eq_alone around now store named
  have held : ∀ name rule, Entries.get? after.rules name = some rule →
      rule.1.name = name ∧ (0 < rule.1.spec.period → Rule.isDue now ⟨rule.1, true⟩ = false) := by
    intro name rule found
    have there : name ∈ Entries.keys after.rules := (Entries.mem_keys_iff _ _).mpr ⟨rule, found⟩
    rw [keys, ← named.map_name_ruleRecords] at there
    obtain ⟨record, member, rfl⟩ := List.mem_map.mp there
    obtain ⟨left, kept, same, settled⟩ :=
      alone_settles around now store record (named.getRule_of_mem record member)
    obtain ⟨points, kept⟩ := (MemoryStore.getRule_eq_ok_iff ..).mp kept
    rw [each record member, kept] at found
    cases found
    exact ⟨same, settled⟩
  have sorted : Entries.Sorted after.rules := by
    rw [Entries.Sorted, keys]
    exact named.sorted
  have named' : after.Named := ⟨sorted, fun name rule found => (held name rule found).1⟩
  refine ⟨named', fun record member => ?_⟩
  obtain ⟨points, found⟩ :=
    (MemoryStore.getRule_eq_ok_iff ..).mp (named'.getRule_of_mem record member)
  exact (held record.name _ found).2

theorem flatMap_eq_filter {α β : Type} (items : List α) (counts : α → Bool) (given : α → List β)
    (nothing : ∀ item ∈ items, counts item = false → given item = []) :
    items.flatMap given = (items.filter counts).flatMap given := by
  induction items with
  | nil => rfl
  | cons item rest ih =>
    obtain ⟨first, behind⟩ := List.forall_mem_cons.mp nothing
    rw [List.flatMap_cons, List.filter_cons, ih behind]
    cases counted : counts item with
    | true => rfl
    | false => rw [first counted]; rfl

theorem evaluateAll_again (around' : Surroundings) (named : store.Named) :
    let first := (evaluateAll around now store).2.1
    let second := evaluateAll around' now first
    (∀ record ∈ first.ruleRecords, 0 < record.spec.period →
      Entries.get? second.2.1.rules record.name = Entries.get? first.rules record.name) ∧
    second.2.2 =
      (first.ruleRecords.filter fun record => record.spec.period == 0).flatMap fun record =>
        (alone around' now first record).dispatched := by
  intro first second
  obtain ⟨named', settled⟩ := evaluateAll_settles around now store named
  obtain ⟨-, -, dispatched, each⟩ := evaluateAll_eq_alone around' now first named'
  have idle : ∀ record ∈ first.ruleRecords, 0 < record.spec.period →
      alone around' now first record = ⟨.ok (), ⟨record, true⟩, first, []⟩ :=
    fun record member period => evaluate_early around' now _ first (settled record member period)
  constructor
  · intro record member period
    rw [each record member, idle record member period]
  · refine dispatched.trans (flatMap_eq_filter _ _ _ fun record member counted => ?_)
    rw [idle record member (Nat.pos_of_ne_zero (beq_eq_false_iff_ne.mp counted))]

end Passes

/-- However often and at whatever instants a stored rule is evaluated, also if the clock goes back,
it runs exactly when its period is over, so runs are at least a period apart; and a second pass at
one instant does nothing to rules with a period. -/
theorem evaluations_wait (store : MemoryStore) :
    (∀ (rule : Rule) (record : Record), WatchStore.getRule rule.record.name store = .ok record →
      rule.record.lastEvaluated.IsOrdinary →
      ∀ calls : List (Surroundings × Instant), (∀ call ∈ calls, call.2.IsOrdinary) →
        Paced rule (rule.turns store calls)) ∧
    (store.Named → ∀ (around around' : Surroundings) (now : Instant),
      let first := (evaluateAll around now store).2.1
      let second := evaluateAll around' now first
      (∀ record ∈ first.ruleRecords, 0 < record.spec.period →
        Entries.get? second.2.1.rules record.name = Entries.get? first.rules record.name) ∧
      second.2.2 =
        (first.ruleRecords.filter fun record => record.spec.period == 0).flatMap fun record =>
        (alone around' now first record).dispatched) := by
  refine ⟨fun rule record known ordinary calls ordinary' => ?_, fun named around around' now => ?_⟩
  · exact paced_turns calls ordinary' rule store record known ordinary
  · exact evaluateAll_again around now store around' named

theorem busyRule_waits :
    let idle : Surroundings := ⟨fun _ => some ⟨.create, .complete⟩, .epoch⟩
    let calls := ([60, 60, 30, 119, 120].filterMap (Instant.of? · 0)).map fun now => (idle, now)
    let now : Instant := ⟨60, 0, by decide, by decide, by decide⟩
    let first := (evaluateAll idle now pairedStore).2.1
    WatchStore.getRule "busy" pairedStore = .ok busyRule.record ∧
      (∀ call ∈ calls, call.2.IsOrdinary) ∧ pairedStore.Named ∧
      Paced busyRule (busyRule.turns pairedStore calls) ∧
      (runs (busyRule.turns pairedStore calls)).map Instant.second = [60, 120] ∧
      (evaluateAll idle now pairedStore).2.2 = [⟨"app", "page"⟩] ∧
      (evaluateAll idle now first).2.2 = [] := by
  intro idle calls now first
  have known : WatchStore.getRule "busy" pairedStore = .ok busyRule.record := by decide +kernel
  have ordinary : ∀ call ∈ calls, call.2.IsOrdinary := by decide +kernel
  obtain ⟨paced, again⟩ := evaluations_wait pairedStore
  refine ⟨known, ordinary, pairedStore_named, ?_, ?_, ?_, ?_⟩
  · exact paced busyRule busyRule.record known (by decide) calls ordinary
  · decide +kernel
  · decide +kernel
  · rw [(again pairedStore_named idle idle now).2]
    decide +kernel

end Watch.Rule

end Orchestration

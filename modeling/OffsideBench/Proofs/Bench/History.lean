import OffsideBench.Proofs.Scenario.Results

/-!
# Batches on a used bench

Batches that are run one after another share a bench and a seed, and nothing else: each starts from
the text and from a sink of its own. So what ran before, and whether it failed, does not show in what
a batch ends in, and a batch says of its text what reading it once would have said.

Main statement: `Batch.report_is_that_of_one_drain`.
-/

namespace OffsideBench

namespace Batch

variable {b : Batch} {seed : UInt64} {bench : Bench} {e : Token}

/-- The bench after some batches in order, with sinks that start from the seed. A batch that fails
leaves the bench as it was when it failed. -/
def benchAfter (seed : UInt64) (history : List Batch) (bench : Bench) : Bench :=
  history.foldl (fun bench b => (b.perform seed bench).2) bench

/-- What a result says about a batch of a text that holds `n` tokens. -/
structure IsReport (b : Batch) (seed : UInt64) (n : Nat) (m : Measurement) : Prop where
  variant : m.variant = b.variant
  workload : m.workload = b.workload
  run : m.run = b.run
  repetitions : m.repetitions = b.repetitions
  /-- The tokens of all repetitions are counted. -/
  totalTokens : m.totalTokens.toNat = b.repetitions.toNat * n
  /-- The mean is exact. -/
  tokensPerRun : m.tokensPerRun.toNat = n
  /-- The characters are counted, as far as a word can hold their number. -/
  chars : b.text.length < UInt64.size → m.chars.toNat = b.text.length
  /-- A fresh sink took in the kinds of all repetitions, one after another. -/
  randomResult : m.randomResult = ((Sink.mk seed).consumeAll
    (List.replicate b.repetitions.toNat (b.variant.drain b.text).kinds).flatten).value

/-! ## The three ways in which a batch ends -/

theorem perform_of_idle (hr : b.repetitions = 0) :
    b.perform seed bench =
      (.error (.misconfigured (.noRepetitions b.variant b.run b.workload)), bench) := by
  rw [perform, if_pos hr]
  rfl

theorem perform_of_fault {fault : LexError} (hr : b.repetitions ≠ 0)
    (h : b.drain.finish = .error fault) : b.perform seed bench = (.error (.lex fault), bench) := by
  rw [perform, if_neg hr, tally_of_fault h hr]
  rfl

theorem perform_of_finish (hr : b.repetitions ≠ 0) (h : b.drain.finish = .ok e)
    (hb : bench.writer.limit = none) :
    b.perform seed bench = (.ok (b.result seed (bench.clock.headD {})),
      ⟨bench.writer.print (b.result seed (bench.clock.headD {})).lines, bench.clock.tail⟩) :=
  (prints_perform hr h).whole bench.writer (Writer.takes_of_limit_none hb _)

theorem isReport_result (hr : b.repetitions ≠ 0)
    (hsize : b.repetitions.toNat * b.drain.tokens.length < UInt64.size) (timing : Timing) :
    IsReport b seed b.drain.tokens.length (b.result seed timing) := by
  rw [Nat.mul_comm] at hsize
  obtain ⟨hmean, htotal⟩ := tokens_result hr hsize seed timing
  rw [Nat.mul_comm] at htotal
  exact {
    variant := rfl
    workload := rfl
    run := rfl
    repetitions := rfl
    totalTokens := htotal
    tokensPerRun := hmean
    chars := UInt64.toNat_ofNat_of_lt'
    randomResult := rfl }

/-! ## Histories -/

theorem limit_perform (hb : bench.writer.limit = none) :
    (b.perform seed bench).2.writer.limit = none := by
  by_cases hr : b.repetitions = 0
  · rw [perform_of_idle hr]
    exact hb
  cases h : b.drain.finish with
  | error fault =>
    rw [perform_of_fault hr h]
    exact hb
  | ok e =>
    rw [perform_of_finish hr h hb]
    exact hb

theorem limit_benchAfter (history : List Batch) (hb : bench.writer.limit = none) :
    (benchAfter seed history bench).writer.limit = none := by
  induction history generalizing bench with
  | nil => exact hb
  | cons b history ih => exact ih (limit_perform hb)

/-- **A batch reports what one drain of its text would.** Whatever was run before with the same
seed, and however that ended: without repetitions a batch is refused, also when its text cannot be
read; a text with a fault is refused with that fault; and in both cases nothing is written. Otherwise
the result is that of one drain of the text, repeated, and two lines are written, which name the
state of the sink and the repetitions. -/
theorem report_is_that_of_one_drain (b : Batch) (seed : UInt64) (history : List Batch)
    (bench : Bench) (hb : bench.writer.limit = none) :
    let before := benchAfter seed history bench
    let count := (b.variant.drain b.text).count
    (b.repetitions = 0 → b.perform seed before =
      (.error (.misconfigured (.noRepetitions b.variant b.run b.workload)), before)) ∧
    (b.repetitions ≠ 0 → ∀ fault, count = .error fault →
      b.perform seed before = (.error (.lex fault), before)) ∧
    (b.repetitions ≠ 0 → ∀ n, count = .ok n → b.repetitions.toNat * n < UInt64.size →
      ∃ m clock, b.perform seed before = (.ok m, ⟨before.writer.print m.lines, clock⟩) ∧
        IsReport b seed n m ∧
        (OneLine b.run →
          (before.writer.print m.lines).lineFeeds = before.writer.lineFeeds + 2)) := by
  -- all that a batch needs of what ran before is a writer that takes every line
  have hbefore := @limit_benchAfter seed bench history hb
  refine ⟨perform_of_idle, ?_, ?_⟩
  · intro hr fault hcount
    exact perform_of_fault hr (Drain.count_eq_error_iff.1 hcount)
  · intro hr n hcount hsize
    obtain ⟨⟨e, he⟩, rfl⟩ := Drain.count_eq_ok_iff.1 hcount
    refine ⟨_, _, perform_of_finish hr he hbefore, isReport_result hr hsize _, ?_⟩
    intro hrun
    exact Writer.lineFeeds_print (Measurement.oneLine_of_mem_lines hrun)

/-- The statement of `report_is_that_of_one_drain` for a text of two tokens that is read three times,
behind a batch that failed and one that did not; and for no repetitions of a text with a fault. -/
theorem report_is_that_of_one_drain_behind_failure :
    let fails : Batch := ⟨.dented, "w", "x = ?\n", 2, "runs"⟩
    let other : Batch := ⟨.rawDented, "w", "x = 1\n", 5, "warmup 0"⟩
    let b : Batch := ⟨.braced, "w", "a ;", 3, "runs"⟩
    let before := benchAfter 42 [fails, other] {}
    fails.perform 42 {} = (.error (.lex (.unrecognized 4)), {}) ∧
      before.writer.lineFeeds = 2 ∧
      (∃ m clock, b.perform 42 before = (.ok m, ⟨before.writer.print m.lines, clock⟩) ∧
        IsReport b 42 2 m ∧ m.totalTokens.toNat = 6 ∧
        (before.writer.print m.lines).lineFeeds = 4) ∧
      { fails with repetitions := 0 }.perform 42 before =
        (.error (.misconfigured (.noRepetitions .dented "runs" "w")), before) := by
  intro fails other b before
  obtain ⟨-, hfails, -⟩ := report_is_that_of_one_drain fails 42 [] {} rfl
  obtain ⟨-, -, hother⟩ := report_is_that_of_one_drain other 42 [fails] {} rfl
  obtain ⟨-, -, hb⟩ := report_is_that_of_one_drain b 42 [fails, other] {} rfl
  obtain ⟨hidle, -, -⟩ :=
    report_is_that_of_one_drain { fails with repetitions := 0 } 42 [fails, other] {} rfl
  have hfailed := hfails (by decide) (.unrecognized 4) (by decide +kernel)
  obtain ⟨m₁, clock₁, hperform₁, -, hlines₁⟩ := hother (by decide) 4 (by decide +kernel) (by decide)
  obtain ⟨m, clock, hperform, hreport, hlines⟩ := hb (by decide) 2 (by decide +kernel) (by decide)
  have hbefore : before.writer.lineFeeds = 2 := by
    have hstep : before = (other.perform 42 (fails.perform 42 {}).2).2 := rfl
    have hprint : benchAfter 42 [fails] {} = (fails.perform 42 {}).2 := rfl
    rw [hstep, ← hprint, hperform₁, hlines₁ (by decide), hprint]
    exact congrArg (fun r => r.2.writer.lineFeeds + 2) hfailed
  refine ⟨hfailed, hbefore, ⟨m, clock, hperform, hreport, hreport.totalTokens, ?_⟩, hidle rfl⟩
  rw [hlines (by decide), hbefore]

end Batch

end OffsideBench

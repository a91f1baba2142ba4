import Mathlib.Data.List.Basic
import OffsideBench.Proofs.Bench.Printing
import OffsideBench.Proofs.Bench.Repetitions
import OffsideBench.Proofs.Draining
import OffsideBench.Scenario

/-!
# What a scenario prints

Each workload of a scenario has a transcript: the lines that are printed while it is warmed up and
measured. A scenario prints the transcripts one after another and ends at the first workload whose
text has a fault, in front of its transcript; a writer with a limit cuts the same lines off at the
limit.

The times in a transcript are those that the clock shows. A workload takes one time off the clock
for each warmup run and one for the measured run.

Main statement: `Scenario.output_is_cut_between_lines`.
-/

namespace OffsideBench

/-! ## Lines -/

namespace OneLine

theorem append {s t : String} (hs : OneLine s) (ht : OneLine t) : OneLine (s ++ t) := by
  rw [OneLine, String.toList_append, List.mem_append, not_or]
  exact ⟨hs, ht⟩

theorem ofDigits (n : Nat) : '\n' ∉ Nat.toDigits 10 n := by
  intro h
  have hd := Nat.isDigit_of_mem_toDigits (b := 10) (by decide) (by decide) h
  revert hd
  decide

theorem ofNat (n : Nat) : OneLine (toString n) := by
  rw [OneLine, Nat.toString_eq_repr, Nat.toList_repr]
  exact ofDigits n

theorem ofWord (n : UInt64) : OneLine (toString n) := ofNat n.toNat

theorem ofPositional (d : Decimal) : '\n' ∉ d.positional := by
  have hzeros : ∀ n, '\n' ∉ List.replicate n '0' := fun n h =>
    absurd (List.eq_of_mem_replicate h) (by decide)
  unfold Decimal.positional
  split
  · rw [List.mem_append, not_or]
    exact ⟨ofDigits _, hzeros _⟩
  · have hpadded : ∀ n, '\n' ∉ List.replicate n '0' ++ d.digits := by
      intro n
      rw [List.mem_append, not_or]
      exact ⟨hzeros _, ofDigits _⟩
    simp only [List.mem_append, List.mem_cons, not_or]
    exact ⟨fun h => hpadded _ (List.mem_of_mem_take h), by decide,
      fun h => hpadded _ (List.mem_of_mem_drop h)⟩

theorem ofSigned (x : Binary64) {cs : List Char} (h : '\n' ∉ cs) : OneLine (x.signed cs) := by
  rw [OneLine, Binary64.signed, String.toList_ofList]
  split
  · rw [List.mem_cons, not_or]
    exact ⟨by decide, h⟩
  · exact h

theorem ofBinary64 (x : Binary64) : OneLine x.text := by
  unfold Binary64.text
  split
  · decide
  split
  · exact ofSigned x (by decide)
  split
  · exact ofSigned x (by decide)
  · exact ofSigned x (ofPositional _)

theorem ofFixed (places : Nat) (x : Binary64) : OneLine (x.fixed places) := by
  unfold Binary64.fixed
  split
  · exact ofBinary64 x
  · exact ofSigned x (ofPositional _)

theorem ofLabel (v : Variant) : OneLine v.label := by cases v <;> decide

theorem join {pieces : List String} (h : ∀ p ∈ pieces, OneLine p) :
    OneLine (String.join pieces) := by
  induction pieces with
  | nil => decide
  | cons p ps ih =>
    rw [String.join_cons]
    exact (h p List.mem_cons_self).append (ih fun q hq => h q (List.mem_cons_of_mem _ hq))

end OneLine

/-! ## Batches -/

/-- The two lines that are printed about a batch. -/
def Measurement.lines (m : Measurement) : List String :=
  let label := m.variant.label
  let each := m.timePerRun.fixed 6
  let total := m.totalTime.fixed 3
  [s!"[{label}] {m.run} resulted in random int: {m.randomResult}",
    s!"[{label}] time: {each} ms each ({total} ms total, {m.repetitions} runs)"]

theorem Measurement.lines_eq (m : Measurement) :
    m.lines = [String.join (Batch.sinkLine m), String.join (Batch.timeLine m)] := rfl

theorem Measurement.oneLine_of_mem_lines {m : Measurement} (h : OneLine m.run) :
    ∀ l ∈ m.lines, OneLine l := by
  have hlabel := OneLine.ofLabel m.variant
  rw [lines_eq, List.forall_mem_cons, List.forall_mem_singleton]
  constructor
  · refine OneLine.join ?_
    simp only [Batch.sinkLine, List.forall_mem_cons]
    exact ⟨by decide, hlabel, by decide, h, by decide, .ofWord _, by simp⟩
  · refine OneLine.join ?_
    simp only [Batch.timeLine, List.forall_mem_cons]
    exact ⟨by decide, hlabel, by decide, .ofFixed 6 _, by decide, .ofFixed 3 _, by decide,
      .ofWord _, by decide, by simp⟩

namespace Batch

variable {b : Batch} {seed : UInt64} {clock : List Timing} {e : Token}

/-- The result of a batch whose text is read to its end each time. -/
def result (b : Batch) (seed : UInt64) (timing : Timing) : Measurement :=
  b.measurement (b.wholeTally seed) timing

theorem prints_perform (hr : b.repetitions ≠ 0) (h : b.drain.finish = .ok e) :
    Prints (b.perform seed) clock (b.result seed (clock.headD {})).lines
      (.ok (b.result seed (clock.headD {}))) clock.tail := by
  have htally : ((b.tally seed).mapError BenchError.lex) = .ok (b.wholeTally seed) := by
    rw [tally_of_finish h]
    rfl
  rw [Measurement.lines_eq, perform, if_neg hr, htally]
  exact .andThen (.pure ()) <| .bind (.ofExcept _) <| .bind .readClock <|
    .line _ <| .line _ <| .pure _

theorem headD_drop (clock : List Timing) (n : Nat) :
    (clock.drop n).headD {} = clock.getD n {} := by
  rw [List.headD_eq_head?_getD, List.head?_drop, List.getD_eq_getElem?_getD]

/-- The batch of a warmup run. -/
def numbered (b : Batch) (i : Nat) : Batch := { b with run := s!"warmup {i}" }

/-- The warmup runs take their times off the clock one by one. -/
theorem prints_warmUp {count : Nat} (hr : count ≠ 0 → b.repetitions ≠ 0)
    (h : b.drain.finish = .ok e) (i : Nat) :
    Prints (b.warmUp seed i count) clock
      ((List.range count).flatMap fun j =>
        ((b.numbered (i + j)).result seed (clock.getD j {})).lines)
      (.ok ()) (clock.drop count) := by
  induction count generalizing i clock with
  | zero => exact .pure ()
  | succ count ih =>
    have hr := hr count.succ_ne_zero
    have hfirst : Prints ((b.numbered i).perform seed) clock _ _ clock.tail :=
      prints_perform hr h
    have hrest := @ih clock.tail (fun _ => hr) (i + 1)
    -- a run later in number is a time later on the clock
    have hhead : clock.getD 0 {} = clock.headD {} := by cases clock <;> rfl
    have htail : ∀ j, clock.getD (j + 1) {} = clock.tail.getD j {} := by
      intro j
      cases clock <;> rfl
    have hlater : ∀ j, ((b.numbered (i + (j + 1))).result seed (clock.getD (j + 1) {})).lines =
        ((b.numbered (i + 1 + j)).result seed (clock.tail.getD j {})).lines := by
      intro j
      rw [htail, Nat.add_comm j, Nat.add_assoc]
    rw [List.drop_tail] at hrest
    rw [List.range_succ_eq_map, List.flatMap_cons, List.flatMap_map, hhead]
    simp only [Nat.succ_eq_add_one, hlater]
    exact hfirst.bind hrest

end Batch

/-! ## Workloads -/

/-- A fixture text is made ready for the variant and read to its end. -/
def Variant.Lexes (v : Variant) (source : String) : Prop :=
  ∃ text e, v.prepare source = .ok text ∧ (v.drain text).finish = .ok e

/-- A fixture text is not made ready for the variant, or not read to its end. -/
def Variant.Fails (v : Variant) (source : String) (fault : LexError) : Prop :=
  v.prepare source = .error fault ∨
    ∃ text, v.prepare source = .ok text ∧ (v.drain text).finish = .error fault

/-- The text of a workload that is ready for the variant, if there is one. -/
def Workload.textFor (w : Workload) (v : Variant) : String :=
  (v.prepare w.source).toOption.getD ""

namespace Scenario

variable {config : Config} {v : Variant} {w : Workload} {clock : List Timing}

theorem textFor_eq {text : String} (h : v.prepare w.source = .ok text) : w.textFor v = text := by
  rw [Workload.textFor, h]
  rfl

theorem prepare_of_lexes (h : v.Lexes w.source) :
    prepare v w = .ok (w.textFor v, (v.drain (w.textFor v)).tokens.length) ∧
      ∃ e, (v.drain (w.textFor v)).finish = .ok e := by
  obtain ⟨text, e, hp, he⟩ := h
  have hcount := Drain.count_eq_ok_iff.2 ⟨⟨e, he⟩, rfl⟩
  rw [textFor_eq hp]
  refine ⟨?_, e, he⟩
  rw [prepare, hp]
  show (do return (text, ← (v.drain text).count)) = _
  rw [hcount]
  rfl

theorem prepare_of_fails {fault : LexError} (h : v.Fails w.source fault) :
    prepare v w = .error fault := by
  rw [prepare]
  rcases h with h | ⟨text, hp, he⟩
  · rw [h]
    rfl
  · rw [hp]
    show (do return (text, ← (v.drain text).count)) = _
    rw [Drain.count_eq_error_iff.2 he]
    rfl

theorem lexes_or_fails (v : Variant) (source : String) :
    v.Lexes source ∨ ∃ fault, v.Fails source fault := by
  cases hp : v.prepare source with
  | error fault => exact .inr ⟨fault, .inl hp⟩
  | ok text =>
    cases he : (v.drain text).finish with
    | error fault => exact .inr ⟨fault, .inr ⟨text, hp, he⟩⟩
    | ok e => exact .inl ⟨text, e, hp, he⟩

/-- The result of measuring a workload that takes the given time. -/
def measured (config : Config) (v : Variant) (w : Workload) (timing : Timing) : Measurement :=
  (mainBatch config v w (w.textFor v)).result config.sinkSeed timing

/-- The lines that are printed about a workload when the clock shows `clock`. -/
def transcript (config : Config) (v : Variant) (clock : List Timing) (w : Workload) :
    List String :=
  let label := v.label
  let text := w.textFor v
  let count := (v.drain text).tokens.length
  let warmups := config.warmupRuns.toNat
  let warmup (i : Nat) : Measurement :=
    ((warmupBatch config v w text).numbered i).result config.sinkSeed (clock.getD i {})
  let main := measured config v w (clock.getD warmups {})
  let each := main.timePerRun.text
  s!"[{label}]: {count} tokens in {text.length} chars" ::
    ((List.range warmups).flatMap (fun i => (warmup i).lines) ++
      "" :: "Starting main runs..." :: (main.lines ++
        ["", s!"[{label}] {w.name}: {each} ms per run", ""]))

theorem length_transcript (config : Config) (v : Variant) (clock : List Timing) (w : Workload) :
    (transcript config v clock w).length = 8 + 2 * config.warmupRuns.toNat := by
  have htwo : ∀ m : Measurement, m.lines.length = 2 := fun _ => rfl
  simp only [transcript, List.length_cons, List.length_append, List.length_flatMap, htwo,
    List.map_const', List.length_range, List.sum_replicate_nat, List.length_nil]
  omega

/-- A warmup run that takes a millisecond and a measured run of two repetitions that takes three. -/
example : transcript { profile := .custom 1 2, warmupRuns := 1 } .dented
      [⟨1000000, 0⟩, ⟨3000000, 0⟩] ⟨"1-a", "x = 1\n", .ofNat 1, ""⟩ =
    ["[Dented]: 4 tokens in 6 chars",
      "[Dented] warmup 0 resulted in random int: 15108037958507356311",
      "[Dented] time: 1.000000 ms each (1.000 ms total, 1 runs)",
      "",
      "Starting main runs...",
      "[Dented] runs resulted in random int: 11395112364167414825",
      "[Dented] time: 1.500000 ms each (3.000 ms total, 2 runs)",
      "",
      "[Dented] 1-a: 1.5 ms per run",
      ""] := by
  decide +kernel

theorem oneLine_of_mem_transcript (hw : OneLine w.name) :
    ∀ l ∈ transcript config v clock w, OneLine l := by
  have hlabel := OneLine.ofLabel v
  have hcount : OneLine (String.join ["[", v.label, "]: ",
      toString (v.drain (w.textFor v)).tokens.length, " tokens in ",
      toString (w.textFor v).length, " chars"]) := by
    refine OneLine.join ?_
    simp only [List.forall_mem_cons]
    exact ⟨by decide, hlabel, by decide, .ofNat _, by decide, .ofNat _, by decide, by simp⟩
  have heach : ∀ x : Binary64, OneLine (String.join ["[", v.label, "] ", w.name, ": ", x.text,
      " ms per run"]) := by
    intro x
    refine OneLine.join ?_
    simp only [List.forall_mem_cons]
    exact ⟨by decide, hlabel, by decide, hw, by decide, .ofBinary64 x, by decide, by simp⟩
  simp only [transcript, List.forall_mem_cons, List.forall_mem_append, List.mem_flatMap]
  refine ⟨hcount, ?_, by decide, by decide, Measurement.oneLine_of_mem_lines ?_, by decide,
    heach _, by decide, by simp⟩
  · rintro l ⟨i, -, hl⟩
    exact Measurement.oneLine_of_mem_lines (.append (by decide) (.ofNat i)) l hl
  · exact (by decide : OneLine "runs")

theorem repetitions_warmupBatch (text : String) :
    (warmupBatch config v w text).repetitions = (config.plan w.multiplier).warmup := by
  rw [warmupBatch]

theorem repetitions_mainBatch (text : String) :
    (mainBatch config v w text).repetitions = (config.plan w.multiplier).measured := by
  rw [mainBatch]

theorem repetitions_of_validate
    (h : (config.plan w.multiplier).validate config.warmupRuns w.name = .ok ()) (text : String) :
    (mainBatch config v w text).repetitions ≠ 0 ∧
      (config.warmupRuns.toNat ≠ 0 → (warmupBatch config v w text).repetitions ≠ 0) := by
  rw [repetitions_mainBatch, repetitions_warmupBatch]
  unfold Plan.validate at h
  split at h
  · cases h
  split at h
  · cases h
  · rename_i hm hw
    refine ⟨hm, fun hpos hzero => hw ⟨?_, hzero⟩⟩
    exact UInt32.lt_iff_toNat_lt.2 (Nat.pos_of_ne_zero hpos)

theorem prints_performWorkload
    (hplan : (config.plan w.multiplier).validate config.warmupRuns w.name = .ok ())
    (hlex : v.Lexes w.source) :
    Prints (performWorkload config v w) clock (transcript config v clock w)
      (.ok (measured config v w (clock.getD config.warmupRuns.toNat {})))
      (clock.drop (config.warmupRuns.toNat + 1)) := by
  obtain ⟨hmain, hwarmup⟩ := @repetitions_of_validate config v w hplan (w.textFor v)
  obtain ⟨hprepare, e, he⟩ := prepare_of_lexes hlex
  have hwarm := @Batch.prints_warmUp _ config.sinkSeed clock e _ hwarmup he 0
  have hrun := @Batch.prints_perform _ config.sinkSeed (clock.drop config.warmupRuns.toNat) e
    hmain he
  rw [Batch.headD_drop, List.tail_drop] at hrun
  simp only [Nat.zero_add] at hwarm
  rw [performWorkload, hprepare]
  refine .bind (.ofExcept _) <| .line _ <| .andThen hwarm <| .line _ <| .line _ <|
    .bind hrun ?_
  exact .line _ <| .line _ <| .line _ <| .pure _

theorem performWorkload_of_fails {fault : LexError} (h : v.Fails w.source fault) :
    Prints (performWorkload config v w) clock [] (.error (.lex fault)) clock := by
  rw [performWorkload, prepare_of_fails h]
  exact .bind_error (.ofExcept _)

/-! ## Scenarios -/

/-- What is left of the clock behind a workload. -/
def clockBehind (config : Config) (clock : List Timing) : List Timing :=
  clock.drop (config.warmupRuns.toNat + 1)

/-- The transcripts of workloads, one after another. -/
def transcripts (config : Config) (v : Variant) : List Timing → List Workload → List String
  | _, [] => []
  | clock, w :: ws =>
    transcript config v clock w ++ transcripts config v (clockBehind config clock) ws

/-- The results of measuring workloads, one after another. -/
def measurements (config : Config) (v : Variant) : List Timing → List Workload → List Measurement
  | _, [] => []
  | clock, w :: ws =>
    measured config v w (clock.getD config.warmupRuns.toNat {}) ::
      measurements config v (clockBehind config clock) ws

/-- What is left of the clock behind some workloads. -/
def clockAfter (config : Config) (clock : List Timing) (ws : List Workload) : List Timing :=
  ws.foldl (fun clock _ => clockBehind config clock) clock

theorem prints_workloads {ws : List Workload}
    (hplans : ∀ w ∈ ws, (config.plan w.multiplier).validate config.warmupRuns w.name = .ok ())
    (hlex : ∀ w ∈ ws, v.Lexes w.source) :
    Prints (ws.mapM (performWorkload config v)) clock (transcripts config v clock ws)
      (.ok (measurements config v clock ws)) (clockAfter config clock ws) := by
  induction ws generalizing clock with
  | nil => exact .pure []
  | cons w ws ih =>
    have hfirst : Prints (performWorkload config v w) clock _ _ (clockBehind config clock) :=
      prints_performWorkload (hplans w List.mem_cons_self) (hlex w List.mem_cons_self)
    have hrest := @ih (clockBehind config clock) (fun x hx => hplans x (List.mem_cons_of_mem _ hx))
      fun x hx => hlex x (List.mem_cons_of_mem _ hx)
    -- the list of results is put together without a line of its own
    rw [List.mapM_cons, transcripts, ← List.append_nil (transcripts _ _ _ ws)]
    exact hfirst.bind (hrest.bind (.pure _))

theorem prints_to_fault {before after : List Workload} {fault : LexError}
    (hplans : ∀ w ∈ before, (config.plan w.multiplier).validate config.warmupRuns w.name = .ok ())
    (hlex : ∀ w ∈ before, v.Lexes w.source) (h : v.Fails w.source fault) :
    Prints ((before ++ w :: after).mapM (performWorkload config v)) clock
      (transcripts config v clock before) (.error (.lex fault))
      (clockAfter config clock before) := by
  rw [List.mapM_append, List.mapM_cons, ← List.append_nil (transcripts _ _ _ before)]
  exact (prints_workloads hplans hlex).bind (.bind_error (.bind_error (performWorkload_of_fails h)))

/-- Either all texts can be read, or there is a first one with a fault. -/
theorem lexes_or_first_fault (v : Variant) (ws : List Workload) :
    (∀ w ∈ ws, v.Lexes w.source) ∨
      ∃ before w after fault, ws = before ++ w :: after ∧ (∀ x ∈ before, v.Lexes x.source) ∧
        v.Fails w.source fault := by
  induction ws with
  | nil => exact .inl (by simp)
  | cons x ws ih =>
    rcases lexes_or_fails v x.source with hx | ⟨fault, hx⟩
    · rcases ih with h | ⟨before, w, after, fault, rfl, hbefore, hw⟩
      · exact .inl (List.forall_mem_cons.2 ⟨hx, h⟩)
      · exact .inr ⟨x :: before, w, after, fault, rfl, List.forall_mem_cons.2 ⟨hx, hbefore⟩, hw⟩
    · exact .inr ⟨[], x, ws, fault, rfl, by simp, hx⟩

variable {s : Scenario}

theorem validate_eq_ok_iff :
    s.validate = .ok () ↔ ∀ w ∈ s.workloads,
      (s.config.plan w.multiplier).validate s.config.warmupRuns w.name = .ok () :=
  forM_eq_ok_iff

theorem prints_perform (h : s.validate = .ok ()) (hlex : ∀ w ∈ s.workloads, v.Lexes w.source) :
    Prints (s.perform v) clock (transcripts s.config v clock s.workloads)
      (.ok (measurements s.config v clock s.workloads))
      (clockAfter s.config clock s.workloads) := by
  rw [perform, h]
  exact .andThen (.ofExcept _) (prints_workloads (validate_eq_ok_iff.1 h) hlex)

theorem prints_perform_to_fault {before after : List Workload} {fault : LexError}
    (h : s.validate = .ok ()) (hs : s.workloads = before ++ w :: after)
    (hlex : ∀ x ∈ before, v.Lexes x.source) (hw : v.Fails w.source fault) :
    Prints (s.perform v) clock (transcripts s.config v clock before) (.error (.lex fault))
      (clockAfter s.config clock before) := by
  have hplans : ∀ x ∈ before,
      (s.config.plan x.multiplier).validate s.config.warmupRuns x.name = .ok () := by
    intro x hx
    exact validate_eq_ok_iff.1 h x (hs ▸ List.mem_append_left _ hx)
  rw [perform, h, hs]
  exact .andThen (.ofExcept _) (prints_to_fault hplans hlex hw)

/-! ## The cut -/

theorem oneLine_of_mem_transcripts {ws : List Workload} (hws : ∀ w ∈ ws, OneLine w.name) :
    ∀ l ∈ transcripts config v clock ws, OneLine l := by
  induction ws generalizing clock with
  | nil => simp [transcripts]
  | cons w ws ih =>
    rw [List.forall_mem_cons] at hws
    rw [transcripts, List.forall_mem_append]
    exact ⟨oneLine_of_mem_transcript hws.1, ih hws.2⟩

/-- The three ways in which a scenario ends that no writer cuts off. -/
theorem perform_cases (s : Scenario) (v : Variant) :
    (∃ e, s.validate = .error e) ∨
      (s.validate = .ok () ∧ ∀ w ∈ s.workloads, v.Lexes w.source) ∨
      ∃ before w after fault, s.validate = .ok () ∧ s.workloads = before ++ w :: after ∧
        (∀ x ∈ before, v.Lexes x.source) ∧ v.Fails w.source fault := by
  cases hv : s.validate with
  | error e => exact .inl ⟨e, rfl⟩
  | ok =>
    rcases lexes_or_first_fault v s.workloads with hlex | ⟨before, w, after, fault, h⟩
    · exact .inr (.inl ⟨rfl, hlex⟩)
    · exact .inr (.inr ⟨before, w, after, fault, rfl, h⟩)

theorem perform_of_invalid {e : BenchError} {bench : Bench} (h : s.validate = .error e) :
    s.perform v bench = (.error e, bench) := by
  rw [perform, h]
  rfl

/-- What a scenario ends in other than results: a fault in a text, a full writer, or a plan of no
use, which is noticed before anything else happens. -/
theorem perform_eq_error {bench bench' : Bench} {e : BenchError}
    (h : s.perform v bench = (.error e, bench')) :
    (∃ fault, e = .lex fault) ∨ e = .output Writer.fullReason ∨
      (s.validate = .error e ∧ bench' = bench) := by
  rcases perform_cases s v with ⟨e', he⟩ | ⟨hv, hlex⟩ | ⟨before, w, after, fault, hv, hs, hlex, hw⟩
  · rw [perform_of_invalid he] at h
    cases h
    exact .inr (.inr ⟨he, rfl⟩)
  · rcases (prints_perform hv hlex).either bench.writer with ⟨_, hp⟩ | ⟨_, hp⟩
    · rw [hp] at h
      cases h
    · rw [hp] at h
      cases h
      exact .inr (.inl rfl)
  · rcases (prints_perform_to_fault hv hs hlex hw).either bench.writer with ⟨_, hp⟩ | ⟨_, hp⟩
    · rw [hp] at h
      cases h
      exact .inl ⟨fault, rfl⟩
    · rw [hp] at h
      cases h
      exact .inr (.inl rfl)

/-- Whatever the writer takes, results are those of plans that are of use and of texts that can be
read. -/
theorem perform_eq_ok {bench bench' : Bench} {ms : List Measurement}
    (h : s.perform v bench = (.ok ms, bench')) :
    s.validate = .ok () ∧ (∀ w ∈ s.workloads, v.Lexes w.source) ∧
      ms = measurements s.config v bench.clock s.workloads := by
  rcases perform_cases s v with ⟨e, he⟩ | ⟨hv, hlex⟩ | ⟨before, w, after, fault, hv, hs, hlex, hw⟩
  · rw [perform_of_invalid he] at h
    cases h
  · rcases (prints_perform hv hlex).either bench.writer with ⟨_, hp⟩ | ⟨_, hp⟩
    · rw [hp] at h
      cases h
      exact ⟨hv, hlex, rfl⟩
    · rw [hp] at h
      cases h
  · rcases (prints_perform_to_fault hv hs hlex hw).either bench.writer with ⟨_, hp⟩ | ⟨_, hp⟩
    · rw [hp] at h
      cases h
    · rw [hp] at h
      cases h

/-- **Output is cut between lines.** The transcript of a workload has eight lines and two for each
warmup run. A scenario whose plans are of use prints the transcripts of all workloads, or those in
front of the first workload with a fault and nothing of that one. A writer that takes only so many
lines takes as many of these lines as it can. No other error comes up, but for a plan of no use,
which leaves the bench as it was. -/
theorem output_is_cut_between_lines (s : Scenario) (v : Variant) :
    (∀ clock w, (transcript s.config v clock w).length = 8 + 2 * s.config.warmupRuns.toNat) ∧
    (s.validate = .ok () → (∀ w ∈ s.workloads, OneLine w.name) → ∀ clock,
      (∀ w ∈ s.workloads, ∀ l ∈ transcript s.config v clock w, OneLine l) ∧
      ((∀ w ∈ s.workloads, v.Lexes w.source) →
        StopsAtLimit (s.perform v) clock (transcripts s.config v clock s.workloads)
          (.ok (measurements s.config v clock s.workloads))) ∧
      ∀ before w after fault, s.workloads = before ++ w :: after →
        (∀ x ∈ before, v.Lexes x.source) → v.Fails w.source fault →
        StopsAtLimit (s.perform v) clock (transcripts s.config v clock before)
          (.error (.lex fault))) ∧
    ∀ bench bench' e, s.perform v bench = (.error e, bench') →
      (∃ fault, e = .lex fault) ∨ e = .output Writer.fullReason ∨
        (s.validate = .error e ∧ bench' = bench) := by
  refine ⟨fun clock w => length_transcript s.config v clock w, ?_, fun _ _ _ => perform_eq_error⟩
  intro hv hnames clock
  refine ⟨fun w hw => oneLine_of_mem_transcript (hnames w hw), ?_, ?_⟩
  · intro hlex
    exact (prints_perform hv hlex).stopsAtLimit (oneLine_of_mem_transcripts hnames)
  · intro before w after fault hs hlex hw
    have hbefore : ∀ x ∈ before, OneLine x.name := by
      intro x hx
      exact hnames x (hs ▸ List.mem_append_left _ hx)
    exact (prints_perform_to_fault hv hs hlex hw).stopsAtLimit (oneLine_of_mem_transcripts hbefore)

/-- The statement of `output_is_cut_between_lines` for a text that can be read in front of one with
a fault, once with a writer that takes all lines and once with one that takes three of the ten. -/
theorem output_is_cut_between_lines_at_fault :
    let good : Workload := ⟨"good", "x = 1\n", .ofNat 1, ""⟩
    let bad : Workload := ⟨"bad", "x = ?\n", .ofNat 1, ""⟩
    let config : Config := { profile := .custom 1 2, warmupRuns := 1 }
    let lines := transcript config .dented [] good
    lines.length = 10 ∧
      (∃ rest, perform ⟨config, [good, bad]⟩ .dented ⟨{}, []⟩ =
        (.error (.lex (.unrecognized 4)), ⟨Writer.print {} lines, rest⟩)) ∧
      ∃ rest, perform ⟨config, [good, bad]⟩ .dented ⟨{ limit := some 3 }, []⟩ =
        (.error (.output Writer.fullReason),
          ⟨Writer.print { limit := some 3 } (lines.take 3), rest⟩) := by
  intro good bad config lines
  obtain ⟨hlength, hcut, -⟩ := output_is_cut_between_lines ⟨config, [good, bad]⟩ .dented
  have hvalid : validate ⟨config, [good, bad]⟩ = .ok () := by decide +kernel
  have hnames : ∀ w ∈ [good, bad], OneLine w.name := by decide +kernel
  have hgood : ∀ x ∈ [good], Variant.Lexes .dented x.source := by
    intro x hx
    obtain rfl := List.mem_singleton.1 hx
    exact ⟨"x = 1\n", ⟨.eof, 6, 6⟩, rfl, by decide +kernel⟩
  have hbad : Variant.Fails .dented bad.source (.unrecognized 4) :=
    .inr ⟨"x = ?\n", rfl, by decide +kernel⟩
  have hlines : transcripts config .dented [] [good] = lines := List.append_nil _
  obtain ⟨-, -, hfault⟩ := hcut hvalid hnames []
  have hstops := hfault [good] bad [] (.unrecognized 4) rfl hgood hbad
  rw [hlines] at hstops
  refine ⟨hlength [] good, ?_, ?_⟩
  · exact (hstops {}).1 fun n hn => by cases hn
  · exact (hstops { limit := some 3 }).2 3 rfl (by rw [hlength [] good]; decide)

end Scenario

end OffsideBench

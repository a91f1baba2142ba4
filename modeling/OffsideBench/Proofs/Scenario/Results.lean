import Mathlib.Data.List.Forall2
import OffsideBench.Proofs.Scenario.Transcript
import OffsideBench.Proofs.TokenCounts

/-!
# What a scenario measures

The results of a scenario stand for its workloads one by one: apart from the times, each is made
from the seed, from the number of repetitions that is planned and from its own workload alone
(`Scenario.measured`). What was run before on the same bench, the other workloads and the warmup
runs leave no trace in it.

A bench whose writer has no limit is taken throughout.

Main statement: `Scenario.results_stand_for_workloads`.
-/

namespace OffsideBench

/-- A result without its times. -/
def Measurement.untimed (m : Measurement) : Measurement :=
  { m with totalTime := default, timePerRun := default, tokenTime := default }

/-- The times of a result are all that the clock has a share in. -/
theorem Batch.untimed_measurement (b : Batch) (t : Tally) (timing : Timing) :
    (b.measurement t timing).untimed =
      ⟨b.variant, b.workload, b.run, b.text.length.toUInt64, t.tokens / b.repetitions, t.tokens,
        b.repetitions, default, default, default, t.sink.value⟩ := rfl

/-- As long as they are within range, the numbers of tokens are right. -/
theorem Batch.tokens_result {b : Batch} (hr : b.repetitions ≠ 0)
    (hsize : b.drain.tokens.length * b.repetitions.toNat < UInt64.size) (seed : UInt64)
    (timing : Timing) :
    (b.result seed timing).tokensPerRun.toNat = b.drain.tokens.length ∧
      (b.result seed timing).totalTokens.toNat =
        b.drain.tokens.length * b.repetitions.toNat := by
  have htotal : (b.wholeTally seed).tokens.toNat = b.drain.tokens.length * b.repetitions.toNat := by
    rw [wholeTally, Nat.mul_comm]
    exact UInt64.toNat_ofNat_of_lt' hsize
  have hpos : 0 < b.repetitions.toNat := by
    rw [Nat.pos_iff_ne_zero]
    intro hzero
    exact hr (UInt64.toNat_inj.1 hzero)
  refine ⟨?_, htotal⟩
  calc (b.result seed timing).tokensPerRun.toNat
      = (b.wholeTally seed).tokens.toNat / b.repetitions.toNat := UInt64.toNat_div _ _
    _ = b.drain.tokens.length := by rw [htotal, Nat.mul_div_cancel _ hpos]

/-- Two results about one workload with the same numbers. -/
structure Measurement.SameCounts (m m' : Measurement) : Prop where
  workload : m.workload = m'.workload
  repetitions : m.repetitions = m'.repetitions
  tokensPerRun : m.tokensPerRun = m'.tokensPerRun
  totalTokens : m.totalTokens = m'.totalTokens

theorem Batch.sameCounts_result {b b' : Batch} (hr : b.repetitions = b'.repetitions)
    (hlength : b.drain.tokens.length = b'.drain.tokens.length)
    (hworkload : b.workload = b'.workload) (seed : UInt64) (timing timing' : Timing) :
    (b.result seed timing).SameCounts (b'.result seed timing') := by
  have htokens : (b.wholeTally seed).tokens = (b'.wholeTally seed).tokens := by
    rw [wholeTally, wholeTally, hr, hlength]
  exact {
    workload := hworkload
    repetitions := hr
    tokensPerRun := by
      show (b.wholeTally seed).tokens / b.repetitions = (b'.wholeTally seed).tokens / b'.repetitions
      rw [htokens, hr]
    totalTokens := htokens }

namespace Scenario

variable {s : Scenario} {config : Config} {v : Variant} {w : Workload} {bench : Bench}

/-- The bench after scenarios with the same settings and workloads, for some variants in order. -/
def after (s : Scenario) (history : List Variant) (bench : Bench) : Bench :=
  history.foldl (fun bench v => (s.perform v bench).2) bench

/-- What a result says about its workload. -/
structure IsResult (config : Config) (v : Variant) (w : Workload) (m : Measurement) : Prop where
  variant : m.variant = v
  workload : m.workload = w.name
  run : m.run = "runs"
  repetitions : m.repetitions = (planned config w).measured
  content : ∃ text count, v.prepare w.source = .ok text ∧ (v.drain text).count = .ok count ∧
    m.chars = text.length.toUInt64 ∧
    (count * m.repetitions.toNat < UInt64.size →
      m.tokensPerRun.toNat = count ∧ m.totalTokens.toNat = count * m.repetitions.toNat) ∧
    m.randomResult = ((Sink.mk config.sinkSeed).consumeAll
      (List.replicate m.repetitions.toNat (v.drain text).kinds).flatten).value

/-! ## Results and workloads -/

theorem measured_planned (config : Config) (w : Workload) :
    (planned config w).measured = (config.plan w.multiplier).measured := by
  rw [planned]

theorem untimed_measured (timing timing' : Timing) :
    (measured config v w timing).untimed = (measured config v w timing').untimed := by
  rw [measured, measured, Batch.result, Batch.result, Batch.untimed_measurement,
    Batch.untimed_measurement]

theorem isResult_result {b : Batch} {e : Token} (hworkload : b.workload = w.name)
    (hrun : b.run = "runs") (hplanned : b.repetitions = (planned config w).measured)
    (hr : b.repetitions ≠ 0) (hp : b.variant.prepare w.source = .ok b.text)
    (he : b.drain.finish = .ok e) (timing : Timing) :
    IsResult config b.variant w (b.result config.sinkSeed timing) where
  variant := rfl
  workload := hworkload
  run := hrun
  repetitions := hplanned
  content := by
    have hcount := Drain.count_eq_ok_iff.2 ⟨⟨e, he⟩, rfl⟩
    refine ⟨b.text, b.drain.tokens.length, hp, hcount, rfl, ?_, rfl⟩
    intro hsize
    exact Batch.tokens_result hr hsize _ timing

theorem isResult_measured (h : v.Lexes w.source)
    (hplan : (config.plan w.multiplier).validate config.warmupRuns w.name = .ok ())
    (timing : Timing) : IsResult config v w (measured config v w timing) := by
  obtain ⟨hr, -⟩ := @repetitions_of_validate config v w hplan (w.textFor v)
  obtain ⟨text, e, hp, he⟩ := h
  have htext := textFor_eq hp
  have hplanned : (mainBatch config v w text).repetitions = (planned config w).measured := by
    rw [repetitions_mainBatch, measured_planned]
  rw [htext] at hr
  rw [measured, htext]
  exact isResult_result rfl rfl hplanned hr hp he timing

theorem forall₂_isResult (clock : List Timing) {ws : List Workload}
    (hlex : ∀ w ∈ ws, v.Lexes w.source)
    (hplans : ∀ w ∈ ws, (config.plan w.multiplier).validate config.warmupRuns w.name = .ok ()) :
    List.Forall₂ (IsResult config v) ws (measurements config v clock ws) := by
  induction ws generalizing clock with
  | nil => exact .nil
  | cons w ws ih =>
    rw [List.forall_mem_cons] at hlex hplans
    exact .cons (isResult_measured hlex.1 hplans.1 _) (ih _ hlex.2 hplans.2)

theorem forall₂_isResult_of_perform {ms : List Measurement} {bench' : Bench}
    (h : s.perform v bench = (.ok ms, bench')) :
    List.Forall₂ (IsResult s.config v) s.workloads ms := by
  obtain ⟨hv, hlex, rfl⟩ := perform_eq_ok h
  exact forall₂_isResult _ hlex (validate_eq_ok_iff.1 hv)

theorem map_untimed_measurements (clock : List Timing) (ws : List Workload) :
    (measurements config v clock ws).map Measurement.untimed =
      ws.map fun w => (measured config v w {}).untimed := by
  induction ws generalizing clock with
  | nil => rfl
  | cons w ws ih =>
    rw [measurements, List.map_cons, List.map_cons, ih, untimed_measured]

/-! ## Scenarios without a limit -/

theorem perform_of_lexes (hv : s.validate = .ok ()) (hlex : ∀ w ∈ s.workloads, v.Lexes w.source)
    (hb : bench.writer.limit = none) :
    ∃ bench', s.perform v bench =
      (.ok (measurements s.config v bench.clock s.workloads), bench') ∧
        bench'.writer.limit = none := by
  have hall := Writer.takes_of_limit_none hb (transcripts s.config v bench.clock s.workloads)
  exact ⟨_, (prints_perform hv hlex).whole bench.writer hall, hb⟩

theorem perform_of_fails {before after : List Workload} {fault : LexError}
    (hv : s.validate = .ok ()) (hs : s.workloads = before ++ w :: after)
    (hlex : ∀ x ∈ before, v.Lexes x.source) (hw : v.Fails w.source fault)
    (hb : bench.writer.limit = none) :
    ∃ bench', s.perform v bench = (.error (.lex fault), bench') ∧ bench'.writer.limit = none := by
  have hall := Writer.takes_of_limit_none hb (transcripts s.config v bench.clock before)
  exact ⟨_, (prints_perform_to_fault hv hs hlex hw).whole bench.writer hall, hb⟩

/-- On a bench without a limit a scenario always fails with one error, or always succeeds. -/
theorem fails_or_succeeds (s : Scenario) (v : Variant) :
    (∃ e, ∀ bench : Bench, bench.writer.limit = none →
      ∃ bench', s.perform v bench = (.error e, bench') ∧ bench'.writer.limit = none) ∨
    (s.validate = .ok () ∧ (∀ w ∈ s.workloads, v.Lexes w.source) ∧
      ∀ bench : Bench, bench.writer.limit = none → ∃ bench', s.perform v bench =
        (.ok (measurements s.config v bench.clock s.workloads), bench') ∧
          bench'.writer.limit = none) := by
  rcases perform_cases s v with ⟨e, he⟩ | ⟨hv, hlex⟩ | ⟨before, w, after, fault, hv, hs, hlex, hw⟩
  · exact .inl ⟨e, fun bench hb => ⟨bench, perform_of_invalid he, hb⟩⟩
  · exact .inr ⟨hv, hlex, fun bench hb => perform_of_lexes hv hlex hb⟩
  · exact .inl ⟨.lex fault, fun bench hb => perform_of_fails hv hs hlex hw hb⟩

theorem limit_perform (hb : bench.writer.limit = none) :
    (s.perform v bench).2.writer.limit = none := by
  rcases fails_or_succeeds s v with ⟨e, h⟩ | ⟨-, -, h⟩
  · obtain ⟨bench', hp, hlimit⟩ := h bench hb
    rw [hp]
    exact hlimit
  · obtain ⟨bench', hp, hlimit⟩ := h bench hb
    rw [hp]
    exact hlimit

theorem limit_after (history : List Variant) (hb : bench.writer.limit = none) :
    (s.after history bench).writer.limit = none := by
  induction history generalizing bench with
  | nil => exact hb
  | cons v history ih => exact ih (limit_perform hb)

/-- The bench has no share in what a scenario ends in, but for the times. -/
theorem exists_outcome (s : Scenario) (v : Variant) :
    ∃ outcome : Except BenchError (List Measurement), ∀ bench : Bench,
      bench.writer.limit = none →
      (s.perform v bench).1.map (List.map Measurement.untimed) = outcome := by
  rcases fails_or_succeeds s v with ⟨e, h⟩ | ⟨-, -, h⟩
  · refine ⟨.error e, fun bench hb => ?_⟩
    obtain ⟨_, hp, -⟩ := h bench hb
    rw [hp]
    rfl
  · refine ⟨.ok (s.workloads.map fun w => (measured s.config v w {}).untimed), fun bench hb => ?_⟩
    obtain ⟨_, hp, -⟩ := h bench hb
    rw [hp]
    exact congrArg Except.ok (map_untimed_measurements _ _)

/-! ## Dented and braced -/

theorem braced_of_dented (h : Variant.Lexes .dented w.source) :
    Variant.Lexes .braced w.source ∧
      (Variant.braced.drain (w.textFor .braced)).tokens.length =
        (Variant.dented.drain (w.textFor .dented)).tokens.length := by
  obtain ⟨text, e, hp, he⟩ := h
  obtain rfl : w.source = text := by cases hp; rfl
  have hcount := Drain.count_eq_ok_iff.2 ⟨⟨e, he⟩, rfl⟩
  obtain ⟨text, hp', hcount'⟩ := Variant.count_prepare_braced hcount
  obtain ⟨⟨e', he'⟩, hlength⟩ := Drain.count_eq_ok_iff.1 hcount'
  rw [textFor_eq hp, textFor_eq hp']
  exact ⟨⟨text, e', hp', he'⟩, hlength⟩

theorem fails_braced {source : String} {fault : LexError} (h : Variant.Fails .dented source fault) :
    Variant.Fails .braced source fault := by
  rcases h with h | ⟨text, hp, he⟩
  · cases h
  · obtain rfl : source = text := by cases hp; rfl
    exact .inl (Variant.prepare_braced_of_error he)

theorem forall₂_sameCounts (clock clock' : List Timing) {ws : List Workload}
    (h : ∀ w ∈ ws, Variant.Lexes .dented w.source) :
    List.Forall₂ Measurement.SameCounts (measurements config .dented clock ws)
      (measurements config .braced clock' ws) := by
  induction ws generalizing clock clock' with
  | nil => exact .nil
  | cons w ws ih =>
    have hrest := ih (clockBehind config clock) (clockBehind config clock')
      fun x hx => h x (List.mem_cons_of_mem _ hx)
    have hlength := (braced_of_dented (h w List.mem_cons_self)).2
    have hr : (mainBatch config .dented w (w.textFor .dented)).repetitions =
        (mainBatch config .braced w (w.textFor .braced)).repetitions := by
      rw [repetitions_mainBatch, repetitions_mainBatch]
    exact .cons (Batch.sameCounts_result hr hlength.symm rfl _ _ _) hrest

/-! ## Independence -/

/-- Of the settings, a result depends on the seed and on the planned repetitions. -/
theorem untimed_measured_congr {config' : Config} (hseed : config.seed = config'.seed)
    (hplanned : (planned config w).measured = (planned config' w).measured) :
    (measured config v w {}).untimed = (measured config' v w {}).untimed := by
  have hsink : config.sinkSeed = config'.sinkSeed := by
    rw [Config.sinkSeed, Config.sinkSeed, Config.generator, Config.generator, hseed]
  have hbatch : mainBatch config v w (w.textFor v) = mainBatch config' v w (w.textFor v) := by
    rw [measured_planned, measured_planned] at hplanned
    rw [mainBatch, mainBatch, hplanned]
  rw [measured, measured, hbatch, hsink]

/-- Each result, but for its times, belongs to the workload in its place. -/
theorem getElem?_of_perform_eq_ok {ms : List Measurement} {bench' : Bench}
    (h : s.perform v bench = (.ok ms, bench')) {i : Nat} {m : Measurement}
    (hw : s.workloads[i]? = some w) (hm : ms[i]? = some m) :
    m.untimed = (measured s.config v w {}).untimed := by
  obtain ⟨-, -, rfl⟩ := perform_eq_ok h
  have hmap := congrArg (·[i]?) (@map_untimed_measurements s.config v bench.clock s.workloads)
  simp only [List.getElem?_map, hm, hw, Option.map_some, Option.some.injEq] at hmap
  exact hmap

theorem perform_perm {ms : List Measurement} {bench' : Bench}
    (h : s.perform v bench = (.ok ms, bench')) {ws : List Workload}
    (hws : ws.Perm s.workloads) {bench₁ : Bench} (hb₁ : bench₁.writer.limit = none) :
    ∃ ms₁ bench₁', perform ⟨s.config, ws⟩ v bench₁ = (.ok ms₁, bench₁') ∧
      (ws.zip (ms₁.map Measurement.untimed)).Perm
        (s.workloads.zip (ms.map Measurement.untimed)) := by
  obtain ⟨hv, hlex, rfl⟩ := perform_eq_ok h
  have hv₁ : validate ⟨s.config, ws⟩ = .ok () :=
    validate_eq_ok_iff.2 fun w hw => validate_eq_ok_iff.1 hv w (hws.subset hw)
  have hlex₁ : ∀ w ∈ ws, v.Lexes w.source := fun w hw => hlex w (hws.subset hw)
  obtain ⟨bench₁', hp, -⟩ := perform_of_lexes hv₁ hlex₁ hb₁
  refine ⟨_, bench₁', hp, ?_⟩
  rw [map_untimed_measurements, map_untimed_measurements, ← List.map_prod_left_eq_zip,
    ← List.map_prod_left_eq_zip]
  exact hws.map _

theorem perform_braced_of_dented {ms : List Measurement} {bench' : Bench}
    (h : s.perform .dented bench = (.ok ms, bench')) {bench₁ : Bench}
    (hb₁ : bench₁.writer.limit = none) :
    ∃ ms₁ bench₁', s.perform .braced bench₁ = (.ok ms₁, bench₁') ∧
      List.Forall₂ Measurement.SameCounts ms ms₁ := by
  obtain ⟨hv, hlex, rfl⟩ := perform_eq_ok h
  obtain ⟨bench₁', hp, -⟩ := perform_of_lexes hv (fun w hw => (braced_of_dented (hlex w hw)).1) hb₁
  exact ⟨_, bench₁', hp, forall₂_sameCounts _ _ hlex⟩

theorem perform_braced_of_dented_error (hb : bench.writer.limit = none) {e : BenchError}
    {bench' : Bench} (h : s.perform .dented bench = (.error e, bench')) {bench₁ : Bench}
    (hb₁ : bench₁.writer.limit = none) :
    ∃ bench₁', s.perform .braced bench₁ = (.error e, bench₁') := by
  rcases perform_cases s .dented with
    ⟨e', he⟩ | ⟨hv, hlex⟩ | ⟨before, w, after, fault, hv, hs, hlex, hw⟩
  · rw [perform_of_invalid he] at h
    cases h
    exact ⟨bench₁, perform_of_invalid he⟩
  · obtain ⟨_, hp, -⟩ := perform_of_lexes hv hlex hb
    rw [hp] at h
    cases h
  · obtain ⟨_, hp, -⟩ := perform_of_fails hv hs hlex hw hb
    rw [hp] at h
    cases h
    have hlex₁ : ∀ x ∈ before, Variant.Lexes .braced x.source := by
      intro x hx
      exact (braced_of_dented (hlex x hx)).1
    obtain ⟨bench₁', hp, -⟩ := perform_of_fails hv hs hlex₁ (fails_braced hw) hb₁
    exact ⟨bench₁', hp⟩

/-- **Results stand for their workloads.** Whatever was run before, a scenario succeeds if and only
if its plans are of use and its texts can be read, and then gives one result for each workload in
its place. Apart from the times a result depends on the seed, on the planned repetitions, on the
variant and on its own workload: scenarios that have these in common have the result in common, the
same workloads in another order have their results in that order, and what was run before does not
show in what a scenario ends in. The dented and the braced form of a scenario end alike, with the
same numbers of tokens. -/
theorem results_stand_for_workloads (s : Scenario) (v : Variant) (history : List Variant)
    (bench : Bench) (hb : bench.writer.limit = none) :
    ((∃ ms bench', s.perform v (s.after history bench) = (.ok ms, bench')) ↔
      s.validate = .ok () ∧ ∀ w ∈ s.workloads, v.Lexes w.source) ∧
    (∀ ms bench', s.perform v (s.after history bench) = (.ok ms, bench') →
      List.Forall₂ (IsResult s.config v) s.workloads ms ∧
      (∀ (s₁ : Scenario) (history₁ : List Variant) (bench₁ : Bench) ms₁ bench₁',
        bench₁.writer.limit = none → s₁.perform v (s₁.after history₁ bench₁) = (.ok ms₁, bench₁') →
        s.config.seed = s₁.config.seed → ∀ (i j : Nat) w m m₁,
        s.workloads[i]? = some w → s₁.workloads[j]? = some w →
        (planned s.config w).measured = (planned s₁.config w).measured →
        ms[i]? = some m → ms₁[j]? = some m₁ → m.untimed = m₁.untimed) ∧
      ∀ ws : List Workload, ws.Perm s.workloads → ∃ ms₁ bench₁',
        perform ⟨s.config, ws⟩ v (s.after history bench) = (.ok ms₁, bench₁') ∧
          (ws.zip (ms₁.map Measurement.untimed)).Perm
            (s.workloads.zip (ms.map Measurement.untimed))) ∧
    (∀ (history₁ : List Variant) (bench₁ : Bench), bench₁.writer.limit = none →
      (s.perform v (s.after history bench)).1.map (List.map Measurement.untimed) =
        (s.perform v (s.after history₁ bench₁)).1.map (List.map Measurement.untimed)) ∧
    (∀ ms bench', s.perform .dented (s.after history bench) = (.ok ms, bench') →
      ∃ ms₁ bench₁', s.perform .braced (s.after history bench) = (.ok ms₁, bench₁') ∧
        List.Forall₂ Measurement.SameCounts ms ms₁) ∧
    ∀ e bench', s.perform .dented (s.after history bench) = (.error e, bench') →
      ∃ bench₁', s.perform .braced (s.after history bench) = (.error e, bench₁') := by
  have hafter := @limit_after s bench history hb
  refine ⟨⟨?_, ?_⟩, ?_, ?_, ?_, ?_⟩
  · rintro ⟨ms, bench', h⟩
    obtain ⟨hv, hlex, -⟩ := perform_eq_ok h
    exact ⟨hv, hlex⟩
  · rintro ⟨hv, hlex⟩
    obtain ⟨bench', h, -⟩ := perform_of_lexes hv hlex hafter
    exact ⟨_, bench', h⟩
  · intro ms bench' h
    refine ⟨forall₂_isResult_of_perform h, ?_, ?_⟩
    · intro s₁ history₁ bench₁ ms₁ bench₁' _ h₁ hseed i j w m m₁ hi hj hplanned hm hm₁
      have hown := getElem?_of_perform_eq_ok h hi hm
      have hown₁ := getElem?_of_perform_eq_ok h₁ hj hm₁
      rw [hown, hown₁]
      exact untimed_measured_congr hseed hplanned
    · intro ws hws
      exact perform_perm h hws hafter
  · intro history₁ bench₁ hb₁
    obtain ⟨outcome, houtcome⟩ := exists_outcome s v
    rw [houtcome _ hafter, houtcome _ (limit_after history₁ hb₁)]
  · intro ms bench' h
    exact perform_braced_of_dented h hafter
  · intro e bench' h
    exact perform_braced_of_dented_error hafter h hafter

/-- The statement of `results_stand_for_workloads` for a flat and a nested text, behind two earlier
scenarios on the same bench. -/
theorem results_stand_for_workloads_nested :
    let flat : Workload := ⟨"flat", "x = 1\n", .ofNat 1, ""⟩
    let nested : Workload := ⟨"nested", "if x:\n  y\n", .ofNat 1, ""⟩
    let s : Scenario := ⟨{ profile := .custom 1 2, warmupRuns := 1 }, [flat, nested]⟩
    ∃ ms bench', s.perform .dented (s.after [.rawDented, .braced] {}) = (.ok ms, bench') ∧
      List.Forall₂ (IsResult s.config .dented) [flat, nested] ms ∧
      ∃ ms₁ bench₁', s.perform .braced (s.after [.rawDented, .braced] {}) = (.ok ms₁, bench₁') ∧
        List.Forall₂ Measurement.SameCounts ms ms₁ := by
  intro flat nested s
  have hvalid : s.validate = .ok () := by decide +kernel
  have hflat : Variant.Lexes .dented flat.source := ⟨_, ⟨.eof, 6, 6⟩, rfl, by decide +kernel⟩
  have hnested : Variant.Lexes .dented nested.source := ⟨_, ⟨.eof, 10, 10⟩, rfl, by decide +kernel⟩
  have hlex : ∀ w ∈ s.workloads, Variant.Lexes .dented w.source :=
    List.forall_mem_cons.2 ⟨hflat, List.forall_mem_singleton.2 hnested⟩
  obtain ⟨hsucceeds, hresults, -, hbraced, -⟩ :=
    results_stand_for_workloads s .dented [.rawDented, .braced] {} rfl
  obtain ⟨ms, bench', hp⟩ := hsucceeds.2 ⟨hvalid, hlex⟩
  exact ⟨ms, bench', hp, (hresults ms bench' hp).1, hbraced ms bench' hp⟩

end Scenario

end OffsideBench

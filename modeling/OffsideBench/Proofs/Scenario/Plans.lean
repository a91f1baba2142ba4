import OffsideBench.Proofs.Scenario.Results

/-!
# Plans of no use

A plan is of no use when it measures nothing, or when it warms up nothing although there are warmup
runs. Whether there is one is decided before a scenario does anything else: the first workload with
such a plan is what the scenario complains about, whatever its texts are like and wherever its
progress goes, and the bench is left as it was. With plans that are of use no complaint of this kind
comes up at all.

Main statement: `Scenario.idle_plan_comes_first`.
-/

namespace OffsideBench

/-- The wording of a complaint about the settings holds the name of a workload. -/
def Misconfiguration.Names (why : Misconfiguration) (workload : String) : Prop :=
  ∃ front back, why.message = front ++ workload ++ back

namespace Plan

/-- A plan measures nothing, or warms up nothing although there are warmup runs. -/
def IsIdle (p : Plan) (warmupRuns : UInt32) : Prop :=
  p.measured = 0 ∨ p.warmup = 0 ∧ 0 < warmupRuns

instance (p : Plan) (warmupRuns : UInt32) : Decidable (p.IsIdle warmupRuns) :=
  inferInstanceAs (Decidable (_ ∨ _))

/-- What is wrong with the idle plan of a workload. That nothing is measured comes first. -/
def complaint (p : Plan) (workload : String) : Misconfiguration :=
  if p.measured = 0 then .nothingMeasured workload else .nothingWarmedUp workload

variable {p : Plan} {warmupRuns : UInt32} {workload : String}

theorem names_complaint : (p.complaint workload).Names workload := by
  unfold complaint
  split
  · refine ⟨"", ": measured repetition count rounds to 0", ?_⟩
    rw [String.empty_append]
    rfl
  · refine ⟨"", ": warmup repetition count rounds to 0", ?_⟩
    rw [String.empty_append]
    rfl

theorem validate_of_idle (h : p.IsIdle warmupRuns) :
    p.validate warmupRuns workload = .error (.misconfigured (p.complaint workload)) := by
  unfold validate complaint
  by_cases hm : p.measured = 0
  · rw [if_pos hm, if_pos hm]
  · have hw : 0 < warmupRuns ∧ p.warmup = 0 := (h.resolve_left hm).symm
    rw [if_neg hm, if_neg hm, if_pos hw]

theorem validate_of_not_idle (h : ¬ p.IsIdle warmupRuns) :
    p.validate warmupRuns workload = .ok () := by
  have hm : p.measured ≠ 0 := fun hm => h (.inl hm)
  have hw : ¬ (0 < warmupRuns ∧ p.warmup = 0) := fun hw => h (.inr hw.symm)
  rw [validate, if_neg hm, if_neg hw]

end Plan

namespace Scenario

variable {config : Config} {ws before after : List Workload} {w : Workload} {s : Scenario}

/-- A scenario with settings that are of use is made of those settings and the workloads. -/
theorem eq_of_make (h : make config ws = .ok s) : s = ⟨config, ws⟩ := by
  unfold make at h
  cases hv : config.validate with
  | error e =>
    rw [hv] at h
    cases h
  | ok =>
    rw [hv] at h
    exact (Except.ok.inj h).symm

theorem validate_of_first_idle
    (hbefore : ∀ x ∈ before, ¬ (config.plan x.multiplier).IsIdle config.warmupRuns)
    (hw : (config.plan w.multiplier).IsIdle config.warmupRuns) :
    validate ⟨config, before ++ w :: after⟩ =
      .error (.misconfigured ((config.plan w.multiplier).complaint w.name)) := by
  have hok : ∀ x ∈ before,
      (config.plan x.multiplier).validate config.warmupRuns x.name = .ok () := by
    intro x hx
    exact Plan.validate_of_not_idle (hbefore x hx)
  exact forM_of_first_error hok (Plan.validate_of_idle hw)

/-- Where there is a workload with an idle plan there is a first one. -/
theorem exists_first_idle
    (h : ∃ w ∈ ws, (config.plan w.multiplier).IsIdle config.warmupRuns) :
    ∃ before w after, ws = before ++ w :: after ∧
      (∀ x ∈ before, ¬ (config.plan x.multiplier).IsIdle config.warmupRuns) ∧
        (config.plan w.multiplier).IsIdle config.warmupRuns := by
  have hsome :
      (ws.find? fun w => decide ((config.plan w.multiplier).IsIdle config.warmupRuns)).isSome := by
    obtain ⟨w, hmem, hw⟩ := h
    exact List.find?_isSome.2 ⟨w, hmem, decide_eq_true hw⟩
  obtain ⟨w, hfind⟩ := Option.isSome_iff_exists.1 hsome
  obtain ⟨hw, before, after, hws, hbefore⟩ := List.find?_eq_some_iff_append.1 hfind
  refine ⟨before, w, after, hws, ?_, of_decide_eq_true hw⟩
  intro x hx
  have hnot := hbefore x hx
  rw [Bool.not_eq_true'] at hnot
  exact of_decide_eq_false hnot

/-- No scenario complains about settings but for an idle plan. -/
theorem exists_idle_of_perform {v : Variant} {bench : Bench} {why : Misconfiguration}
    (h : (perform ⟨config, ws⟩ v bench).1 = .error (.misconfigured why)) :
    ∃ w ∈ ws, (config.plan w.multiplier).IsIdle config.warmupRuns := by
  have hp : perform ⟨config, ws⟩ v bench =
      (.error (.misconfigured why), (perform ⟨config, ws⟩ v bench).2) := Prod.ext h rfl
  rcases perform_eq_error hp with ⟨fault, hlex⟩ | hfull | ⟨hvalid, -⟩
  · cases hlex
  · cases hfull
  · by_contra hnone
    have hok : validate ⟨config, ws⟩ = .ok () := by
      refine validate_eq_ok_iff.2 ?_
      intro w hw
      exact Plan.validate_of_not_idle fun hidle => hnone ⟨w, hw, hidle⟩
    rw [hok] at hvalid
    cases hvalid

/-- **An idle plan comes first.** A scenario complains about the plan of a workload if and only if
some workload has an idle plan. The complaint is about the first of these, for every variant, every
text and every writer; the bench is as it was, so whatever is run on it afterwards ends as it would
have without. -/
theorem idle_plan_comes_first (hs : make config ws = .ok s) (v : Variant) (bench : Bench) :
    ((∃ why, (s.perform v bench).1 = .error (.misconfigured why) ∧
        ∃ w ∈ ws, why.Names w.name) ↔
      ∃ w ∈ ws, (config.plan w.multiplier).IsIdle config.warmupRuns) ∧
    ∀ before w after, ws = before ++ w :: after →
      (∀ x ∈ before, ¬ (config.plan x.multiplier).IsIdle config.warmupRuns) →
      (config.plan w.multiplier).IsIdle config.warmupRuns →
      s.perform v bench =
        (.error (.misconfigured ((config.plan w.multiplier).complaint w.name)), bench) ∧
      ((config.plan w.multiplier).complaint w.name).Names w.name ∧
      ∀ (history : List Variant) (v' : Variant),
        s.perform v' (s.after (v :: history) bench) = s.perform v' (s.after history bench) := by
  obtain rfl := eq_of_make hs
  have hfirst : ∀ before w after, ws = before ++ w :: after →
      (∀ x ∈ before, ¬ (config.plan x.multiplier).IsIdle config.warmupRuns) →
      (config.plan w.multiplier).IsIdle config.warmupRuns →
      perform ⟨config, ws⟩ v bench =
        (.error (.misconfigured ((config.plan w.multiplier).complaint w.name)), bench) := by
    rintro before w after rfl hbefore hw
    exact perform_of_invalid (validate_of_first_idle hbefore hw)
  refine ⟨⟨?_, ?_⟩, ?_⟩
  · rintro ⟨why, hwhy, -⟩
    exact exists_idle_of_perform hwhy
  · intro hidle
    obtain ⟨before, w, after, hws, hbefore, hw⟩ := exists_first_idle hidle
    have hmem : w ∈ ws := hws ▸ List.mem_append_right before List.mem_cons_self
    have hp := hfirst before w after hws hbefore hw
    exact ⟨_, congrArg Prod.fst hp, w, hmem, Plan.names_complaint⟩
  · intro before w after hws hbefore hw
    have hp := hfirst before w after hws hbefore hw
    refine ⟨hp, Plan.names_complaint, ?_⟩
    intro history v'
    have hafter : Scenario.after ⟨config, ws⟩ (v :: history) bench =
        Scenario.after ⟨config, ws⟩ history (perform ⟨config, ws⟩ v bench).2 := rfl
    rw [hafter, hp]

/-- The statement of `idle_plan_comes_first` for an idle plan behind a text with a fault, with a
writer that takes nothing. -/
theorem idle_plan_comes_first_behind_fault :
    let bad : Workload := ⟨"bad", "x = ?\n", .ofNat 1, ""⟩
    let idle : Workload := ⟨"idle", "x = 1\n", .ofNat 0, ""⟩
    let config : Config := { profile := .custom 1 2, warmupRuns := 1 }
    let bench : Bench := { writer := { limit := some 0 } }
    make config [bad, idle] = .ok ⟨config, [bad, idle]⟩ ∧
      Variant.Fails .dented bad.source (.unrecognized 4) ∧
      perform ⟨config, [bad, idle]⟩ .dented bench =
        (.error (.misconfigured (.nothingMeasured "idle")), bench) := by
  intro bad idle config bench
  have hmake : make config [bad, idle] = .ok ⟨config, [bad, idle]⟩ := by decide +kernel
  have hbad : ∀ x ∈ [bad], ¬ (config.plan x.multiplier).IsIdle config.warmupRuns := by
    decide +kernel
  have hidle : (config.plan idle.multiplier).IsIdle config.warmupRuns := by decide +kernel
  have hcomplaint : (config.plan idle.multiplier).complaint idle.name = .nothingMeasured "idle" := by
    decide +kernel
  obtain ⟨-, hfirst⟩ := idle_plan_comes_first hmake .dented bench
  obtain ⟨hperform, -⟩ := hfirst [bad] idle [] rfl hbad hidle
  rw [hcomplaint] at hperform
  exact ⟨hmake, .inr ⟨_, rfl, by decide +kernel⟩, hperform⟩

end Scenario

end OffsideBench

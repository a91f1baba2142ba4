import OffsideBench.Proofs.Json.Forms
import OffsideBench.Report.Text

/-!
# Reports read back

A report is read from its text as the report that was written: the form of each of its parts
recovers the value that the part is written as, and the part is got back from that value.

Numbers of 64 bits and strings always survive. Floating-point numbers are read by their digits and
not exactly, so of those it is assumed that they read back from their own texts.

Main statement: `reports_survive_writing_and_reading`.
-/

namespace OffsideBench

open Json (Value Form)

/-- A number that is written as such, and is read back from its own text. -/
structure Json.Survives (x : Binary64) : Prop where
  finite : x.isFinite = true
  readsBack : number (real x) = .ok (.real x, [])

/-! ## Variants -/

namespace Variant

theorem recovers (v : Variant) : form.Recovers v.toValue := by
  refine Form.recovers_choice ?_
  cases v <;> decide

theorem ofValue?_toValue (v : Variant) : ofValue? v.toValue = some v := ofName?_name v

end Variant

/-! ## Provenances -/

namespace Provenance

theorem recovers_revision (revision : Option String) :
    (Form.optional .text).Recovers ((revision.map Value.text).getD .null) := by
  cases revision with
  | none => exact Form.recovers_null .text
  | some s =>
    refine Form.recovers_optional (Form.recovers_text s) ?_
    rintro depth ⟨⟩

theorem recovers {p : Provenance} (h : Json.Survives p.speed) : form.Recovers p.toValue := by
  have hspeed := Form.recovers_real h.finite h.readsBack
  have hword : ∀ n : UInt32, (Form.wordBelow UInt32.size).Recovers (.word n.toUInt64) := by
    intro n
    exact Form.recovers_word (by rw [UInt32.toNat_toUInt64]; exact n.toNat_lt)
  refine Form.recovers_record (by decide) ?_
  exact .cons ⟨rfl, hword _⟩ <| .cons ⟨rfl, Form.recovers_text _⟩ <|
    .cons ⟨rfl, Form.recovers_text _⟩ <| .cons ⟨rfl, Form.recovers_word p.seed.toNat_lt⟩ <|
    .cons ⟨rfl, hspeed⟩ <| .cons ⟨rfl, hword _⟩ <| .cons ⟨rfl, Form.recovers_text _⟩ <|
    .cons ⟨rfl, recovers_revision _⟩ .nil

theorem ofValue?_toValue (p : Provenance) : ofValue? p.toValue = some p := by
  have hrevision : revisionOfValue? ((p.revision.map Value.text).getD .null) =
      some p.revision := by
    cases p.revision <;> rfl
  rw [toValue, ofValue?, hrevision]
  simp

end Provenance

/-! ## Workloads -/

namespace PlannedWorkload

theorem recovers {w : PlannedWorkload} (h : Json.Survives w.multiplier) :
    form.Recovers w.toValue := by
  have hmultiplier := Form.recovers_real h.finite h.readsBack
  refine Form.recovers_record (by decide) ?_
  exact .cons ⟨rfl, Form.recovers_text _⟩ <| .cons ⟨rfl, hmultiplier⟩ <|
    .cons ⟨rfl, Form.recovers_text _⟩ <| .cons ⟨rfl, Form.recovers_word w.warmup.toNat_lt⟩ <|
    .cons ⟨rfl, Form.recovers_word w.measured.toNat_lt⟩ .nil

theorem ofValue?_toValue (w : PlannedWorkload) : ofValue? w.toValue = some w := rfl

end PlannedWorkload

/-! ## Measurements -/

namespace Measurement

/-- The floating-point numbers of a measurement. -/
def reals (m : Measurement) : List Binary64 := [m.totalTime, m.timePerRun, m.tokenTime]

theorem recovers {m : Measurement} (h : ∀ x ∈ m.reals, Json.Survives x) :
    form.Recovers m.toValue := by
  have hreal : ∀ x ∈ m.reals, Form.real.Recovers (.real x) := fun x hx =>
    Form.recovers_real (h x hx).finite (h x hx).readsBack
  have hword : ∀ n : UInt64, (Form.wordBelow UInt64.size).Recovers (.word n) := fun n =>
    Form.recovers_word n.toNat_lt
  refine Form.recovers_record (by decide) ?_
  exact .cons ⟨rfl, m.variant.recovers⟩ <| .cons ⟨rfl, Form.recovers_text _⟩ <|
    .cons ⟨rfl, Form.recovers_text _⟩ <| .cons ⟨rfl, hword _⟩ <| .cons ⟨rfl, hword _⟩ <|
    .cons ⟨rfl, hword _⟩ <| .cons ⟨rfl, hword _⟩ <| .cons ⟨rfl, hreal _ (by simp [reals])⟩ <|
    .cons ⟨rfl, hreal _ (by simp [reals])⟩ <| .cons ⟨rfl, hreal _ (by simp [reals])⟩ <|
    .cons ⟨rfl, hword _⟩ .nil

theorem ofValue?_toValue (m : Measurement) : ofValue? m.toValue = some m := by
  rw [toValue, ofValue?, Variant.ofValue?_toValue]
  rfl

end Measurement

/-! ## Reports -/

namespace Report

/-- The floating-point numbers of a report. -/
def reals (r : Report) : List Binary64 :=
  r.provenance.speed :: (r.workloads.map PlannedWorkload.multiplier ++
    r.results.flatMap Measurement.reals)

theorem recovers {r : Report} (h : ∀ x ∈ r.reals, Json.Survives x) : form.Recovers r.toValue := by
  have hworkloads : ∀ v ∈ r.workloads.map PlannedWorkload.toValue,
      PlannedWorkload.form.Recovers v := by
    intro v hv
    obtain ⟨w, hw, rfl⟩ := List.mem_map.1 hv
    refine PlannedWorkload.recovers (h _ ?_)
    exact List.mem_cons_of_mem _ (List.mem_append_left _ (List.mem_map_of_mem hw))
  have hresults : ∀ v ∈ r.results.map Measurement.toValue, Measurement.form.Recovers v := by
    intro v hv
    obtain ⟨m, hm, rfl⟩ := List.mem_map.1 hv
    refine Measurement.recovers ?_
    intro x hx
    exact h x (List.mem_cons_of_mem _
      (List.mem_append_right _ (List.mem_flatMap.2 ⟨m, hm, hx⟩)))
  refine Form.recovers_record (by decide) ?_
  exact .cons ⟨rfl, Provenance.recovers (h _ List.mem_cons_self)⟩ <|
    .cons ⟨rfl, Form.recovers_list hworkloads⟩ <| .cons ⟨rfl, Form.recovers_list hresults⟩ .nil

/-- What is got back from each value is got back from all of them. -/
theorem mapM_ofValue?_map {α : Type} {toValue : α → Value} {ofValue? : Value → Option α}
    (h : ∀ a, ofValue? (toValue a) = some a) (as : List α) :
    (as.map toValue).mapM ofValue? = some as := by
  induction as with
  | nil => rfl
  | cons a as ih =>
    rw [List.map_cons, List.mapM_cons, h, ih]
    rfl

theorem ofValue?_toValue (r : Report) : ofValue? r.toValue = some r := by
  rw [toValue, ofValue?, Provenance.ofValue?_toValue,
    mapM_ofValue?_map PlannedWorkload.ofValue?_toValue,
    mapM_ofValue?_map Measurement.ofValue?_toValue]
  rfl

theorem parse_text {r : Report} (h : ∀ x ∈ r.reals, Json.Survives x) : parse r.text = .ok r := by
  rw [parse, text, String.toList_ofList, (recovers h).parse]
  simp only [ofValue?_toValue]

end Report

/-- **Reports survive a write and a read.** A report without infinite or undefined numbers is read
from its text as it was, and its text is written again as it was. Of its floating-point numbers it
is assumed that they are read back from their own texts. -/
theorem reports_survive_writing_and_reading (r : Report)
    (hfinite : ∀ x ∈ r.reals, x.isFinite = true)
    (hreads : ∀ x ∈ r.reals, Json.number (Json.real x) = .ok (.real x, [])) :
    Report.parse r.text = .ok r ∧ (Report.parse r.text).map Report.text = .ok r.text := by
  have hparse : Report.parse r.text = .ok r :=
    Report.parse_text fun x hx => ⟨hfinite x hx, hreads x hx⟩
  refine ⟨hparse, ?_⟩
  rw [hparse]
  rfl

/-- A report with the greatest words, and with strings that need escapes. -/
def Report.greatest : Report where
  provenance :=
    { schemaVersion := 4294967295, benchVersion := "\"\\/\x00\x1f\x7f", profile := "",
      seed := 18446744073709551615, speed := ⟨0x8000000000000000⟩, warmupRuns := 0,
      timestamp := "\t\r\n", revision := some "é𝄞" }
  workloads := [⟨"a", ⟨0x3fb999999999999a⟩, "b", 18446744073709551615, 9007199254740993⟩]
  results :=
    [⟨.rawDented, "a", "runs", 0, 1, 2, 3, ⟨0x3ff0000000000000⟩, ⟨0x7e37e43c8800759c⟩,
      ⟨0x3e7ad7f29abcaf48⟩, 18446744073709551615⟩]

theorem reports_survive_writing_and_reading_greatest :
    Report.parse Report.greatest.text = .ok Report.greatest ∧
      (Report.parse Report.greatest.text).map Report.text = .ok Report.greatest.text :=
  reports_survive_writing_and_reading Report.greatest (by decide +kernel) (by decide +kernel)

end OffsideBench

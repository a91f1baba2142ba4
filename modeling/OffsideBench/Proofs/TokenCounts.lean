import OffsideBench.Proofs.Actions
import OffsideBench.Proofs.ReadBack

/-!
# Token counts

The stream with structure and the text that is made from it with braces have equally many tokens,
so the listing of a catalog, which compares the two, never ends in a mismatch.

Main statement: `Braces.written_streams_read_back`.
-/

namespace OffsideBench

open Token (Kind)

/-- Whether an error says that two streams of one fixture differ in length. -/
def BenchError.isMismatch : BenchError → Bool
  | countMismatch .. => true
  | _ => false

namespace Variant

/-- A fault of the stream with structure is the fault of making the text with braces. -/
theorem prepare_braced_of_error {source : String} {e : LexError}
    (h : (dented.drain source).finish = .error e) : braced.prepare source = .error e := by
  rw [prepare, Braces.write, h]
  rfl

/-- Writing a fixture with braces keeps the number of its tokens. -/
theorem count_prepare_braced {source : String} {n : Nat} (h : (dented.drain source).count = .ok n) :
    ∃ text, braced.prepare source = .ok text ∧ (braced.drain text).count = .ok n := by
  obtain ⟨⟨t, hf⟩, hn⟩ := Drain.count_eq_ok_iff.1 h
  obtain ⟨-, text, hwrite, hfinish, hread⟩ :=
    Braces.drain_write Braces.isBlank_of_mem_lineFeed hf
  have hlength := congrArg List.length hread
  rw [List.length_map, List.length_map, hn] at hlength
  exact ⟨text, hwrite, Drain.count_eq_ok_iff.2 ⟨⟨_, hfinish⟩, hlength⟩⟩

end Variant

namespace Session

theorem tokenCounts_eq_ok {source : String} {d r b : Nat} (h : tokenCounts source = .ok (d, r, b)) :
    d = b := by
  unfold tokenCounts at h
  cases hd : (Variant.dented.drain source).count with
  | error e =>
    rw [hd] at h
    cases h
  | ok n =>
    obtain ⟨text, htext, hb⟩ := Variant.count_prepare_braced hd
    rw [hd, htext] at h
    cases hr : (Variant.rawDented.drain source).count with
    | error e =>
      rw [hr] at h
      cases h
    | ok m =>
      simp only [hr, hb, bind, Except.bind, pure, Except.pure, Except.ok.injEq, Prod.mk.injEq] at h
      exact h.1.symm.trans h.2.2

/-- Listing one workload never ends in a mismatch. -/
theorem listWorkload_isMismatch {config : Config} {w : Workload} {b b' : Bench} {e : BenchError}
    (h : listWorkload config w b = (.error e, b')) : e.isMismatch = false := by
  unfold listWorkload at h
  rcases bind_eq_error h with h | ⟨⟨d, r, n⟩, b₁, hcounts, h⟩
  · cases hc : tokenCounts w.source with
    | error e' =>
      rw [hc] at h
      cases h
      rfl
    | ok counts =>
      rw [hc] at h
      cases h
  have hd : d = n := by
    cases hc : tokenCounts w.source with
    | error e' =>
      rw [hc] at hcounts
      cases hcounts
    | ok counts =>
      rw [hc] at hcounts
      cases hcounts
      exact tokenCounts_eq_ok hc
  rcases bind_eq_error h with h | ⟨_, _, -, h⟩
  · rw [BenchM.writeLine_eq_error h]
    rfl
  rcases bind_eq_error h with h | ⟨_, _, -, h⟩
  · rw [BenchM.writeLine_eq_error h]
    rfl
  · rw [if_neg (not_not_intro hd)] at h
    cases h

/-! ## The listing as a whole -/

theorem workload_isMismatch {name : String} {file : FoundFile} {e : BenchError}
    (h : Workload.ofFile name file = .error e) : e.isMismatch = false := by
  unfold Workload.ofFile at h
  split at h
  · rename_i hm
    cases h
    unfold Fixture.multiplierOf at hm
    split at hm
    · cases hm
    · simp only at hm
      split at hm
      · cases hm
        rfl
      · split at hm <;> cases hm
        rfl
  · split at h
    · cases h
      rfl
    · split at h <;> cases h
      rfl

theorem catalog_add_isMismatch {suffix : String} {workloads : List Workload}
    {m : Except WalkError FoundFile} {e : BenchError}
    (h : Catalog.add suffix workloads m = .error e) : e.isMismatch = false := by
  unfold Catalog.add at h
  split at h
  · rename_i hm
    cases h
    unfold Catalog.met at hm
    split at hm <;> cases hm <;> rfl
  · split at h
    · cases h
    · rename_i name hn
      cases hw : Workload.ofFile name ‹FoundFile› with
      | error e' =>
        rw [hw] at h
        cases h
        exact workload_isMismatch hw
      | ok w =>
        rw [hw] at h
        cases h

theorem catalog_ofWalk_isMismatch {suffix : String} {walk : List (Except WalkError FoundFile)}
    {workloads : List Workload} {e : BenchError}
    (h : walk.foldlM (Catalog.add suffix) workloads = .error e) : e.isMismatch = false := by
  induction walk generalizing workloads with
  | nil => cases h
  | cons m walk ih =>
    rw [List.foldlM_cons] at h
    cases ha : Catalog.add suffix workloads m with
    | error e' =>
      rw [ha] at h
      cases h
      exact catalog_add_isMismatch ha
    | ok next =>
      rw [ha] at h
      exact ih h

theorem catalog_load_isMismatch {tree : FileTree} {root : Path} {suffix : String} {e : BenchError}
    (h : Catalog.load tree root suffix = .error e) : e.isMismatch = false := by
  unfold Catalog.load at h
  split at h
  · cases h
    rfl
  · exact catalog_ofWalk_isMismatch h

theorem config_isMismatch {inv : CommandLine.Invocation} {e : BenchError}
    (h : config inv = .error e) : e.isMismatch = false := by
  unfold config at h
  cases hs : parseSpeed inv.speed with
  | error e' =>
    rw [hs] at h
    cases h
    unfold parseSpeed at hs
    split at hs
    · cases hs
      rfl
    · split at hs <;> cases hs
      rfl
  | ok speed =>
    rw [hs] at h
    cases h

theorem ofExcept_eq_error {α : Type} {result : Except BenchError α} {m m' : Machine}
    {e : BenchError} (h : ofExcept result m = (.error e, m')) : result = .error e :=
  congrArg Prod.fst h

/-- The listing of a catalog never ends in a mismatch. -/
theorem perform_catalog_isMismatch {surroundings : Surroundings} {inv : CommandLine.Invocation}
    {fixtures : Path} {suffix : String} (hc : inv.command = .catalog fixtures suffix)
    {m m' : Machine} {e : BenchError} (h : perform surroundings inv m = (.error e, m')) :
    e.isMismatch = false := by
  unfold perform at h
  rcases bind_eq_error h with h | ⟨config, m₁, -, h⟩
  · exact config_isMismatch (ofExcept_eq_error h)
  rw [hc] at h
  unfold catalog at h
  rcases bind_eq_error h with h | ⟨_, _, -, h⟩
  · cases h
  rcases bind_eq_error h with h | ⟨workloads, _, -, h⟩
  · exact catalog_load_isMismatch (ofExcept_eq_error h)
  · obtain ⟨b', hb⟩ := onBench_eq_error h
    obtain ⟨w, -, b₁, b₂, hw⟩ := BenchM.forM_eq_error hb
    exact listWorkload_isMismatch hw

end Session

/-- **What is written with braces reads back.** A stream of any variant that is drained without a
fault can be written with braces, with any blanks or none behind the marks, and the braced stream of
the result is drained without a fault, token by token the stream that was written. A fault of the
stream with structure is the fault of making a fixture ready; without one the two streams have
equally many tokens, and the listing of a catalog never ends in a mismatch. -/
theorem Braces.written_streams_read_back :
    (∀ (v : Variant) (source separator : String) (t : Token),
      (∀ x ∈ separator.toList, x ∈ [' ', '\t', '\r', '\n', '\x0c']) →
      (v.drain source).finish = .ok t →
      (Braces.mk .indent .dedent .newline separator).fits source (v.drain source) = true ∧
        ∃ text, (Braces.mk .indent .dedent .newline separator).write source (v.drain source) =
            .ok text ∧
          (Variant.braced.drain text).finish = .ok (Token.empty .eof text.utf8ByteSize) ∧
          (Variant.braced.drain text).tokens.map (fun u => (u.kind, u.text? text)) =
            (v.drain source).tokens.map (readBack source)) ∧
    (∀ (source : String) (e : LexError), (Variant.dented.drain source).finish = .error e →
      Variant.braced.prepare source = .error e) ∧
    (∀ (source : String) (n : Nat), (Variant.dented.drain source).count = .ok n →
      ∃ text, Variant.braced.prepare source = .ok text ∧
        (Variant.braced.drain text).count = .ok n) ∧
    (∀ (surroundings : Surroundings) (inv : CommandLine.Invocation) (fixtures : Path)
      (suffix : String) (m m' : Machine) (name : String) (dented braced : UInt64),
      inv.command = .catalog fixtures suffix →
      Session.perform surroundings inv m ≠ (.error (.countMismatch name dented braced), m')) := by
  refine ⟨?_, ?_, ?_, ?_⟩
  · intro v source separator t hs h
    refine drain_write (fun x hx => ?_) h
    have hx := hs x hx
    simp only [List.mem_cons, List.not_mem_nil, or_false] at hx
    rcases hx with rfl | rfl | rfl | rfl | rfl <;> rfl
  · intro source e h
    exact Variant.prepare_braced_of_error h
  · intro source n h
    exact Variant.count_prepare_braced h
  · intro surroundings inv fixtures suffix m m' name dented braced hc h
    have hm := Session.perform_catalog_isMismatch hc h
    cases hm

/-- The statement of `Braces.written_streams_read_back` for a text with marks inside of a string,
and for one that is closed to a width that is not open. -/
theorem Braces.written_streams_read_back_string :
    ((∃ text, (Braces.mk .indent .dedent .newline "").write "if a:\n    b == \"#;\"\nc"
          (Variant.dented.drain "if a:\n    b == \"#;\"\nc") = .ok text ∧
        (Variant.braced.drain text).tokens.map (fun u => (u.kind, u.text? text)) =
          (Variant.dented.drain "if a:\n    b == \"#;\"\nc").tokens.map
            (readBack "if a:\n    b == \"#;\"\nc")) ∧
      Variant.braced.prepare "a\n  b\n c" = .error (.inconsistentDedent 7 1)) ∧
    (∃ text, Variant.braced.prepare "if a:\n    b == \"#;\"\nc" = .ok text ∧
      (Variant.braced.drain text).count = .ok 11) ∧
    Session.perform {} { (default : CommandLine.Invocation) with command := .catalog default "" }
      {} ≠ (.error (.countMismatch "a" 1 2), {}) := by
  have hs : ∀ x ∈ "".toList, x ∈ [' ', '\t', '\r', '\n', '\x0c'] := by simp
  have hfinish : (Variant.dented.drain "if a:\n    b == \"#;\"\nc").finish =
      .ok ⟨.eof, 21, 21⟩ := by
    decide +kernel
  have herror : (Variant.dented.drain "a\n  b\n c").finish = .error (.inconsistentDedent 7 1) := by
    decide +kernel
  have hcount : (Variant.dented.drain "if a:\n    b == \"#;\"\nc").count = .ok 11 := by
    decide +kernel
  refine ⟨⟨?_, ?_⟩, ?_, ?_⟩
  · obtain ⟨-, text, hwrite, -, hread⟩ := written_streams_read_back.1 .dented _ "" _ hs hfinish
    exact ⟨text, hwrite, hread⟩
  · exact written_streams_read_back.2.1 _ _ herror
  · exact written_streams_read_back.2.2.1 _ _ hcount
  · exact written_streams_read_back.2.2.2 _ _ default "" _ _ _ _ _ rfl

end OffsideBench

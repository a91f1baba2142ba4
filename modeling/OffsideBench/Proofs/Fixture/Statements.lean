import OffsideBench.Proofs.Fixture.WellFormed

/-!
# Statements and headers

How many lines of a synthetic program open blocks, and how many do not, counted in its text by the
word that a line of code starts with. Each step writes one line of code, be it a header or a
statement. So headers take the place of statements: of the number asked for there are as many
statements less as there are headers. A header needs a statement in its block, so at most half of
the lines are headers.

Main statements: `Nests.lineKinds`, the lines of code of a program are of the kinds they were
written for; `Draft.Bodied.of_step` and `Draft.Bodied.grow`, no header goes without its statement;
and `headers_count_as_statements`.
-/

namespace OffsideBench

open Token (Kind)

/-! ## Lines of code by their first words -/

/-- The kinds of the tokens on each line of code of a text. -/
def lineKinds (source : String) : List (List Kind) := (codeLines source).map (·.map Token.kind)

/-- Whether a line of code is the header of a block, by its first token. -/
def opensBlock : List Kind → Bool
  | .defWord :: _ | .ifWord :: _ | .whileWord :: _ | .elseWord :: _ => true
  | _ => false

/-- The number of lines of a text that are headers of blocks. -/
def headers (source : String) : Nat := (lineKinds source).countP opensBlock

/-- The number of lines of a text with code that are no headers. -/
def simpleStatements (source : String) : Nat := (lineKinds source).countP (!opensBlock ·)

theorem Line.map_kinds {source : String} {ls : List Line} {cs : List Code}
    (h : List.Forall₂ (Line.Shows source) ls cs) (hls : ∀ l ∈ ls, IsLine l.tokens) :
    (ls.map Line.tokens).map (·.map Token.kind) = cs.map fun c => c.tokens.map Prod.fst := by
  induction h with
  | nil => rfl
  | @cons l c ls cs hshow _ ih =>
    obtain ⟨hl, hls⟩ := List.forall_mem_cons.1 hls
    have hkinds : l.tokens.map Token.kind = c.tokens.map Prod.fst := by
      rw [← Layout.map_reading_tokens hshow hl, List.map_map]
      rfl
    simp only [List.map_cons, hkinds, ih hls]

/-- The lines of code of a text without faults are of the kinds that its rows hold. -/
theorem lineKinds_eq_codes {source : String} (h : ∀ c ∈ codes source.toList, c.Clean) :
    lineKinds source = (codes source.toList).map fun c => c.tokens.map Prod.fst := by
  obtain ⟨xs, hxs⟩ := Scan.exists_map_ok_of_clean h
  rw [lineKinds, codeLines_eq hxs]
  exact Line.map_kinds (Line.shows_ofText hxs) (Line.isLine_of_mem hxs)

namespace Fixture

open OffsideBench.Random (Dice Generator)

/-- The kinds that a line is written for. -/
def Line.kinds : Line → List Kind
  | blank | comment _ _ => []
  | header _ h => h.kinds ++ [.colon]
  | statement _ s => s.kinds

/-- Whether a line is a statement. -/
def Line.isStatement : Line → Bool
  | statement _ _ => true
  | blank | comment _ _ | header _ _ => false

/-- The rows of a program hold what its lines of code were written for. -/
theorem Nests.map_kinds {top n n' : Nat} {b b' : Bool} {ls : List Line}
    (h : Nests top n b ls n' b') :
    ((codes (text ls).toList).map fun c => c.tokens.map Prod.fst) =
      (ls.filter Line.hasCode).map Line.kinds := by
  induction h with
  | nil =>
    rw [show (text []).toList = [] from rfl, codes_nil]
    rfl
  | skip hl _ ih =>
    rw [toList_text_cons, codes_of_not_hasCode hl, List.filter_cons_of_neg (by simp [hl]), ih]
  | @header _ _ depth _ _ h _ _ _ hh _ ih =>
    obtain ⟨c, hc, hcodes⟩ := exists_codes_indented (Header.isBody hh) (by simp) depth
    rw [toList_text_cons, Line.text, hcodes, List.filter_cons_of_pos rfl, List.map_cons,
      List.map_cons, ih, hc.kinds]
    rfl
  | @statement _ _ depth _ _ s _ _ hs _ ih =>
    obtain ⟨c, hc, hcodes⟩ := exists_codes_indented (Statement.isBody hs)
      (by cases s <;> exact List.cons_ne_nil _ _) depth
    rw [toList_text_cons, Line.text, hcodes, List.filter_cons_of_pos rfl, List.map_cons,
      List.map_cons, ih, hc.kinds]
    rfl

/-- The lines of code of a program are of the kinds they were written for. -/
theorem Nests.lineKinds {top n : Nat} {ls : List Line} (h : Nests top 0 false ls n false) :
    lineKinds (text ls) = (ls.filter Line.hasCode).map Line.kinds := by
  rw [lineKinds_eq_codes h.nested.1.clean, h.map_kinds]

/-! ## Counting lines -/

/-- The first word of a line says whether it was written as a header, and a line of code that was
not was written as a statement. -/
theorem Line.opensBlock_kinds (l : Line) :
    (opensBlock l.kinds && l.hasCode) = l.isHeader ∧
      (!opensBlock l.kinds && l.hasCode) = l.isStatement := by
  cases l with
  | blank => exact ⟨rfl, rfl⟩
  | comment => exact ⟨rfl, rfl⟩
  | header _ header => cases header <;> exact ⟨rfl, rfl⟩
  | statement _ statement => cases statement <;> exact ⟨rfl, rfl⟩

/-- Headers and statements are found in the text of a program as they were written. -/
theorem Nests.counts {top n : Nat} {ls : List Line} (h : Nests top 0 false ls n false) :
    headers (text ls) = ls.countP Line.isHeader ∧
      simpleStatements (text ls) = ls.countP Line.isStatement := by
  rw [headers, simpleStatements, h.lineKinds]
  simp only [List.countP_map, List.countP_filter]
  constructor
  · exact List.countP_congr fun l _ => by rw [← (Line.opensBlock_kinds l).1]; rfl
  · exact List.countP_congr fun l _ => by rw [← (Line.opensBlock_kinds l).2]; rfl

/-- A line of code is a header or a statement. -/
theorem countP_hasCode (ls : List Line) :
    ls.countP Line.hasCode = ls.countP Line.isHeader + ls.countP Line.isStatement := by
  induction ls with
  | nil => rfl
  | cons l ls ih =>
    rw [List.countP_cons, List.countP_cons, List.countP_cons, ih]
    cases l <;> simp [Line.hasCode, Line.isHeader, Line.isStatement] <;> omega

/-! ## Headers ask for statements -/

/-- There are no more headers than statements, but for the one that still needs its body. -/
def Draft.Bodied (d : Draft) : Prop :=
  d.lines.toList.countP Line.isHeader ≤
    d.lines.toList.countP Line.isStatement + if d.needsBody then 1 else 0

namespace Draft

variable {maxDepth : Nat} {d d' : Draft}

/-- Lines without code are neither headers nor statements. -/
theorem countP_skipped {skipped : Array Line} (h : ∀ l ∈ skipped, l.hasCode = false) :
    skipped.toList.countP Line.isHeader = 0 ∧ skipped.toList.countP Line.isStatement = 0 := by
  have hcode : skipped.toList.countP Line.hasCode = 0 := by
    refine List.countP_eq_zero.2 ?_
    intro l hl
    simp [h l (Array.mem_def.2 hl)]
  rw [countP_hasCode] at hcode
  omega

/-- A step writes a header only where none needs its body. -/
theorem Bodied.of_step (hd : d.Bodied) (h : d.Step maxDepth d') : d'.Bodied := by
  unfold Bodied at hd ⊢
  cases h with
  | body hb hs =>
    rw [hb] at hd
    simp only [add, Array.toList_push, List.countP_append]
    simp [Line.isHeader, Line.isStatement] at hd ⊢
    omega
  | header hb hskip hdepth hlt hh =>
    obtain ⟨hheaders, hstatements⟩ := countP_skipped hskip
    rw [hb] at hd
    simp only [Array.toList_push, Array.toList_append, List.countP_append, hheaders, hstatements]
    simp [Line.isHeader, Line.isStatement] at hd ⊢
    omega
  | statement hb hskip hdepth hs =>
    obtain ⟨hheaders, hstatements⟩ := countP_skipped hskip
    rw [hb] at hd
    simp only [Array.toList_push, Array.toList_append, List.countP_append, hheaders, hstatements]
    simp [Line.isHeader, Line.isStatement] at hd ⊢
    omega

/-- So does a run. -/
theorem Bodied.grow {σ : Type} (dice : Dice σ) (maxDepth : Nat) (hd : d.Bodied) (n : Nat) :
    Gives (grow dice maxDepth n d) Bodied := by
  induction n generalizing d with
  | zero => exact .pure hd
  | succ n ih => exact (gives_step dice d maxDepth).bind fun d' hstep => ih (hd.of_step hstep)

/-- The filler is the statement that a last header needs. -/
theorem Bodied.finish (hd : d.Bodied) :
    d.finish.countP Line.isHeader ≤ d.finish.countP Line.isStatement := by
  unfold Bodied at hd
  unfold Draft.finish
  split
  · rename_i hb
    rw [if_pos hb] at hd
    simp only [add, Array.toList_push, List.countP_append]
    simpa [Line.isHeader, Line.isStatement] using hd
  · rename_i hb
    rw [if_neg hb] at hd
    exact hd

end Draft

/-! ## Programs -/

/-- The lines of code of a text by their first words, where `steps` lines were asked for and
`filled` says whether the last block was closed by a filler. -/
structure Counted (source : String) (steps : Nat) (filled : Bool) : Prop where
  /-- Each step writes a header or a statement. -/
  total : headers source + simpleStatements source = steps + if filled then 1 else 0
  /-- Each header has a statement of its own. -/
  headers_le : headers source ≤ simpleStatements source
  /-- There are as many statements as lines were asked for if there is no header. -/
  as_asked_iff : simpleStatements source = steps + (if filled then 1 else 0) ↔ headers source = 0

/-- **Headers count as statements.** For every outcome of the draws, the text of a synthetic program
has as many simple statements as were asked for less the headers it has, and the filler if there is
one; so it has the number that was asked for only if it has no header. -/
theorem headers_count_as_statements (c : Config) :
    (∀ {σ : Type} (dice : Dice σ) (s : σ),
      Counted (text (linesWith dice s c.statements c.maxDepth)) c.statements
        (draftWith dice s c.statements c.maxDepth).endsInHeader) ∧
      Counted c.source c.statements (draftWith Dice.ofGenerator (Generator.ofSeed c.seed)
        c.statements c.maxDepth).endsInHeader := by
  have hdice : ∀ {σ : Type} (dice : Dice σ) (s : σ),
      Counted (text (linesWith dice s c.statements c.maxDepth)) c.statements
        (draftWith dice s c.statements c.maxDepth).endsInHeader := by
    intro σ dice s
    obtain ⟨⟨n, hnests⟩, hcount⟩ := nests_linesWith dice s c.statements c.maxDepth
    obtain ⟨hheaders, hstatements⟩ := hnests.counts
    rw [countP_hasCode, ← hheaders, ← hstatements] at hcount
    have hbodied : ({} : Draft).Bodied := Nat.le_refl 0
    have hle := (hbodied.grow dice c.maxDepth c.statements s).finish
    refine ⟨hcount, ?_, ?_⟩
    · rw [hheaders, hstatements]
      exact hle
    · omega
  exact ⟨hdice, hdice Dice.ofGenerator (Generator.ofSeed c.seed)⟩

/-- Two statements were asked for, but the first line is a header. -/
theorem header_takes_the_place_of_a_statement :
    (Config.mk 2 1 9).source = "else:\n    index = value < 9506\n" ∧
      simpleStatements (Config.mk 2 1 9).source = 1 := by
  have hsource : (Config.mk 2 1 9).source = "else:\n    index = value < 9506\n" := by
    decide +kernel
  rw [hsource]
  exact ⟨rfl, by decide +kernel⟩

end Fixture

end OffsideBench

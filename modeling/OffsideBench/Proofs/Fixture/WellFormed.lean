import OffsideBench.Proofs.Fixture.Writing
import OffsideBench.Proofs.Layout.Blocks
import OffsideBench.Proofs.TokenCounts

/-!
# Programs are well formed

The stream with structure of a synthetic program, for every outcome of the draws. What links the
generator to the layout machine is that the blocks which are open on a line of depth `n` have the
widths of the margins of the depths from 1 to `n` (`margins`). So a line of the next depth opens a
block, which only a header asks for, and any other line closes blocks down to its depth.

Main statements: `WellNested`, what the kinds of such a stream are like; and
`generated_programs_are_well_formed`.
-/

namespace OffsideBench.Fixture

open Token (Kind)
open OffsideBench.Random (Dice Generator)
open OffsideBench.Layout (marks sketch sketchText)

/-! ## Rows of code -/

/-- Kinds that open and close nothing. -/
def Plain (ks : List Kind) : Prop := ∀ k ∈ ks, k ≠ .indent ∧ k ≠ .dedent ∧ k ≠ .colon

instance (ks : List Kind) : Decidable (Plain ks) :=
  inferInstanceAs (Decidable (∀ k ∈ ks, k ≠ .indent ∧ k ≠ .dedent ∧ k ≠ .colon))

theorem Expr.plain {e : Expr} (h : e.Drawn) : Plain e.kinds := by
  have hoperator : ∀ operator ∈ operators, operatorKind operator ≠ .indent ∧
      operatorKind operator ≠ .dedent ∧ operatorKind operator ≠ .colon := by
    decide +kernel
  intro k hk
  simp only [kinds, List.mem_cons, List.not_mem_nil, or_false] at hk
  rcases hk with rfl | rfl | rfl
  · decide
  · exact hoperator _ h.operator
  · cases e.right <;> exact ⟨nofun, nofun, nofun⟩

theorem Plain.cons {k : Kind} {ks : List Kind} (hk : k ≠ .indent ∧ k ≠ .dedent ∧ k ≠ .colon)
    (h : Plain ks) : Plain (k :: ks) := List.forall_mem_cons.2 ⟨hk, h⟩

theorem Header.plain {h : Header} (hh : h.Drawn) : Plain h.kinds := by
  cases h with
  | define => exact (by decide : Plain [.defWord, .ident, .lparen, .ident, .comma, .ident, .rparen])
  | test e => exact (Expr.plain hh).cons (by decide)
  | loop e => exact (Expr.plain hh).cons (by decide)
  | otherwise => exact (by decide : Plain [.elseWord])

theorem Statement.plain {s : Statement} (hs : s.Drawn) : Plain s.kinds := by
  cases s with
  | giveBack e => exact (Expr.plain hs).cons (by decide)
  | print => exact (by decide : Plain [.ident, .lparen, .str, .comma, .ident, .rparen])
  | assign name e => exact ((Expr.plain hs.2).cons (by decide)).cons (by decide)
  | filler => exact (by decide : Plain [.returnWord, .int])

/-- Rows of code nest behind a line that stands in `n` blocks and is a header or not, up to a line
that is no header. -/
inductive Nested (top : Nat) : Nat → Bool → List Code → Prop where
  | nil {n : Nat} : Nested top n false []
  | header {n depth : Nat} {b : Bool} {c : Code} {ks : List Kind} {cs : List Code}
    (hdepth : Follows n b depth) (hlt : depth < top) (hc : Holds c depth (ks ++ [.colon]))
    (hks : Plain ks) (hrest : Nested top depth true cs) : Nested top n b (c :: cs)
  | statement {n depth : Nat} {b : Bool} {c : Code} {ks : List Kind} {cs : List Code}
    (hdepth : Follows n b depth) (hc : Holds c depth ks) (hks : Plain ks)
    (hrest : Nested top depth false cs) : Nested top n b (c :: cs)

theorem toList_text_cons (l : Line) (ls : List Line) :
    (text (l :: ls)).toList = l.text.toList ++ (text ls).toList := by
  rw [text, List.map_cons, String.join_cons, String.toList_append]
  rfl

/-- The rows of a program nest as its lines do. -/
theorem Nests.nested {top n n' : Nat} {b : Bool} {ls : List Line}
    (h : Nests top n b ls n' false) :
    Nested top n b (codes (text ls).toList) ∧
      (codes (text ls).toList).length = ls.countP Line.hasCode := by
  generalize hb : false = b' at h
  induction h with
  | nil =>
    subst hb
    rw [show (text []).toList = [] from rfl, codes_nil]
    exact ⟨.nil, rfl⟩
  | skip hl _ ih =>
    rw [toList_text_cons, codes_of_not_hasCode hl, List.countP_cons_of_neg (by simp [hl])]
    exact ih hb
  | @header _ _ depth _ _ h _ hdepth hlt hh _ ih =>
    obtain ⟨c, hc, hcodes⟩ := exists_codes_indented (Header.isBody hh) (by simp) depth
    rw [toList_text_cons, Line.text, hcodes, List.length_cons, (ih hb).2,
      List.countP_cons_of_pos rfl]
    exact ⟨.header hdepth hlt hc (Header.plain hh) (ih hb).1, rfl⟩
  | @statement _ _ depth _ _ s _ hdepth hs _ ih =>
    obtain ⟨c, hc, hcodes⟩ := exists_codes_indented (Statement.isBody hs)
      (by cases s <;> exact List.cons_ne_nil _ _) depth
    rw [toList_text_cons, Line.text, hcodes, List.length_cons, (ih hb).2,
      List.countP_cons_of_pos rfl]
    exact ⟨.statement hdepth hc (Statement.plain hs) (ih hb).1, rfl⟩

theorem Nested.clean {top n : Nat} {b : Bool} {cs : List Code} (h : Nested top n b cs) :
    ∀ c ∈ cs, c.Clean := by
  induction h with
  | nil => simp
  | header _ _ hc _ _ ih => exact List.forall_mem_cons.2 ⟨hc.clean, ih⟩
  | statement _ hc _ _ ih => exact List.forall_mem_cons.2 ⟨hc.clean, ih⟩

/-! ## Margins -/

/-- The width of a margin. -/
def marginWidth (depth : Nat) : UInt32 := lineWidth (margin depth)

theorem toNat_marginWidth {depth : Nat} (h : 4 * depth < UInt32.size) :
    (marginWidth depth).toNat = 4 * depth := by
  have hcolumns : ∀ n, columns (List.replicate n ' ') = n := by
    intro n
    induction n with
    | zero => rfl
    | succ n ih =>
      rw [List.replicate_succ', columns_concat, if_neg (by decide), ih]
      rfl
  rw [marginWidth, toNat_lineWidth]
  · exact hcolumns _
  · rw [margin, hcolumns]
    exact h

theorem marginWidth_lt {m n : Nat} (hm : 4 * m < UInt32.size) (hn : 4 * n < UInt32.size) :
    marginWidth m < marginWidth n ↔ m < n := by
  rw [UInt32.lt_iff_toNat_lt, toNat_marginWidth hm, toNat_marginWidth hn]
  omega

/-- The widths of the blocks that are open on a line of depth `n`, innermost first. -/
def margins : Nat → List UInt32
  | 0 => []
  | n + 1 => marginWidth (n + 1) :: margins n

theorem length_margins (n : Nat) : (margins n).length = n := by
  induction n with
  | zero => rfl
  | succ n ih => rw [margins, List.length_cons, ih]

theorem headD_margins (n : Nat) : (margins n).headD 0 = marginWidth n := by cases n <;> rfl

theorem closeTo_margins {n depth : Nat} (hn : 4 * n < UInt32.size) (hd : depth ≤ n) :
    Layout.closeTo (marginWidth depth) (margins n) = margins depth := by
  induction n with
  | zero =>
    obtain rfl := Nat.le_zero.1 hd
    rfl
  | succ n ih =>
    have hlt := marginWidth_lt (m := depth) (n := n + 1) (by omega) hn
    rw [margins, Layout.closeTo]
    by_cases hdepth : depth < n + 1
    · rw [if_pos (hlt.2 hdepth)]
      exact ih (by omega) (by omega)
    · rw [if_neg (mt hlt.1 hdepth)]
      obtain rfl : depth = n + 1 := by omega
      rfl

theorem Holds.width {c : Code} {depth : Nat} {ks : List Kind} (h : Holds c depth ks) :
    c.width = marginWidth depth := by
  rw [Code.width, h.lead, List.takeWhile_eq_self_iff.2]
  · rfl
  · intro x hx
    rw [List.eq_of_mem_replicate hx]
    rfl

theorem Holds.column {c : Code} {depth : Nat} {ks : List Kind} (h : Holds c depth ks) :
    c.column = marginWidth depth := by
  rw [Code.column, h.lead]
  rfl

/-- Rows that nest from the beginning start at the first column. -/
theorem Nested.first_column {top : Nat} {cs : List Code} (h : Nested top 0 false cs) :
    ∀ c ∈ cs.head?, c.column = 0 ∧ c.width = 0 := by
  have hzero : ∀ {c : Code} {depth : Nat} {ks : List Kind}, Follows 0 false depth →
      Holds c depth ks → c.column = 0 ∧ c.width = 0 := by
    intro c depth ks hdepth hc
    obtain rfl : depth = 0 := Nat.le_zero.1 hdepth
    rw [hc.column, hc.width]
    exact ⟨rfl, rfl⟩
  intro c hc
  cases h with
  | nil => cases hc
  | header hdepth _ hholds =>
    obtain rfl := Option.some.inj hc
    exact hzero hdepth hholds
  | statement hdepth hholds =>
    obtain rfl := Option.some.inj hc
    exact hzero hdepth hholds

/-! ## The stream of a program -/

/-- The kinds `ks` follow where `n` blocks are open, behind a colon or not: a colon opens a block
with the next token, nothing else opens one, at most `top` blocks are open, and all are closed in
the end. -/
inductive WellNested (top : Nat) : Nat → Bool → List Kind → Prop where
  | nil : WellNested top 0 false []
  | indent {n : Nat} {ks : List Kind} (hlt : n < top) (hrest : WellNested top (n + 1) false ks) :
    WellNested top n true (.indent :: ks)
  | dedent {n : Nat} {ks : List Kind} (hrest : WellNested top n false ks) :
    WellNested top (n + 1) false (.dedent :: ks)
  | colon {n : Nat} {ks : List Kind} (hrest : WellNested top n true ks) :
    WellNested top n false (.colon :: ks)
  | other {n : Nat} {k : Kind} {ks : List Kind} (hk : k ≠ .indent ∧ k ≠ .dedent ∧ k ≠ .colon)
    (hrest : WellNested top n false ks) : WellNested top n false (k :: ks)

namespace WellNested

variable {top n : Nat} {b : Bool} {as ks : List Kind}

theorem plain_append (has : Plain as) (h : WellNested top n false ks) :
    WellNested top n false (as ++ ks) := by
  induction as with
  | nil => exact h
  | cons a as ih =>
    exact .other (has a List.mem_cons_self) (ih fun k hk => has k (List.mem_cons_of_mem _ hk))

theorem dedents_append (h : WellNested top n false ks) (j : Nat) :
    WellNested top (n + j) false (List.replicate j .dedent ++ ks) := by
  induction j with
  | zero => exact h
  | succ j ih => exact .dedent ih

/-- A block is opened at once exactly behind a colon. -/
theorem getElem?_zero (h : WellNested top n b ks) : ks[0]? = some .indent ↔ b = true := by
  cases h with
  | other hk => simpa using hk.1
  | _ => simp

/-- Colons and the openings of blocks are neighbours everywhere. -/
theorem colon_iff (h : WellNested top n b ks) (i : Nat) :
    ks[i]? = some .colon ↔ ks[i + 1]? = some .indent := by
  have hcons : ∀ {k : Kind} {ks : List Kind}, (k = .colon ↔ ks[0]? = some .indent) →
      (∀ i, ks[i]? = some .colon ↔ ks[i + 1]? = some .indent) →
      ∀ i, (k :: ks)[i]? = some .colon ↔ (k :: ks)[i + 1]? = some .indent := by
    intro k ks hk hks i
    cases i with
    | zero => simpa using hk
    | succ i => exact hks i
  induction h generalizing i with
  | nil => simp
  | indent _ hrest ih => exact hcons (by rw [hrest.getElem?_zero]; decide) ih i
  | dedent hrest ih => exact hcons (by rw [hrest.getElem?_zero]; decide) ih i
  | colon hrest ih => exact hcons (by rw [hrest.getElem?_zero]; decide) ih i
  | other hk hrest ih => exact hcons (by rw [hrest.getElem?_zero]; simpa using hk.2.2) ih i

/-- Nowhere are more than `top` blocks open. -/
theorem count_take_le (h : WellNested top n b ks) (hn : n ≤ top) (i : Nat) :
    n + (ks.take i).count .indent ≤ top + (ks.take i).count .dedent := by
  induction h generalizing i with
  | nil =>
    rw [List.take_nil]
    exact hn
  | indent hlt _ ih =>
    cases i with
    | zero => simpa using hn
    | succ i =>
      have hi := ih hlt i
      simp only [List.take_succ_cons, List.count_cons]
      simp
      omega
  | dedent _ ih =>
    cases i with
    | zero => simpa using hn
    | succ i =>
      have hi := ih (by omega) i
      simp only [List.take_succ_cons, List.count_cons]
      simp
      omega
  | colon _ ih =>
    cases i with
    | zero => simpa using hn
    | succ i =>
      have hi := ih hn i
      simpa [List.count_cons] using hi
  | other hk _ ih =>
    cases i with
    | zero => simpa using hn
    | succ i =>
      have hi := ih hn i
      simpa [List.count_cons, hk.1, hk.2.1] using hi

end WellNested

section Stream

variable {top n depth : Nat} {b : Bool} {c : Code} {cs : List Code}

/-- What a line hands out in front of it where it has its place. -/
theorem exists_marks (hdepth : Follows n b depth) (hle : depth ≤ top)
    (hn : n ≤ top) (htop : 4 * top < UInt32.size) :
    ∃ ms, marks (margins n) (marginWidth depth) = some (ms, margins depth) ∧
      ∀ ks, WellNested top depth false ks → WellNested top n b (ms ++ ks) := by
  have hlt := marginWidth_lt (m := n) (n := depth) (by omega) (by omega)
  rw [marks, headD_margins]
  cases b with
  | true =>
    obtain rfl : depth = n + 1 := hdepth
    refine ⟨[.indent], if_pos (hlt.2 (Nat.lt_succ_self n)), ?_⟩
    intro ks hks
    exact .indent hle hks
  | false =>
    have hdn : depth ≤ n := hdepth
    rw [if_neg (mt hlt.1 (Nat.not_lt.2 hdn)), closeTo_margins (by omega) hdn]
    refine ⟨_, if_pos (headD_margins depth).symm, ?_⟩
    intro ks hks
    have hdedents := hks.dedents_append (n - depth)
    rw [Nat.add_sub_cancel' hdn] at hdedents
    rw [length_margins, length_margins]
    exact .other (by decide) hdedents

/-- A row of code in front of a stream that nests. -/
theorem Holds.exists_sketch {ks : List Kind} {rs : List (Kind × Option String)}
    (hc : Holds c depth ks) (hdepth : Follows n b depth) (hle : depth ≤ top) (hn : n ≤ top)
    (htop : 4 * top < UInt32.size) (hrs : sketch (margins depth) cs = some rs)
    (hnested : WellNested top depth false (ks ++ rs.map Prod.fst)) :
    ∃ rs', sketch (margins n) (c :: cs) = some rs' ∧ WellNested top n b (rs'.map Prod.fst) := by
  obtain ⟨ms, hms, hmarks⟩ := exists_marks hdepth hle hn htop
  have hsketch := Layout.sketch_cons_of_marks hms hc.width cs
  rw [hrs, Option.map_some] at hsketch
  refine ⟨_, hsketch, ?_⟩
  have hfst : (ms.map fun k => (k, (none : Option String))).map Prod.fst = ms := by
    rw [List.map_map]
    exact List.map_id ms
  rw [List.map_append, List.map_append, hfst, hc.kinds, List.append_assoc]
  exact hmarks _ hnested

/-- Rows of code that nest make a stream that nests. -/
theorem Nested.exists_sketch (h : Nested top n b cs) (htop : 4 * top < UInt32.size)
    (hn : if b then n < top else n ≤ top) :
    ∃ rs, sketch (margins n) cs = some rs ∧ WellNested top n b (rs.map Prod.fst) := by
  induction h with
  | @nil n =>
    refine ⟨_, rfl, ?_⟩
    have hdedents : WellNested top (0 + n) false (List.replicate n .dedent ++ []) :=
      WellNested.nil.dedents_append n
    rw [List.append_nil, Nat.zero_add] at hdedents
    rw [List.map_cons, List.map_replicate, length_margins]
    exact .other (by decide) hdedents
  | @header n depth b c ks cs hdepth hlt hc hks _ ih =>
    obtain ⟨rs, hrs, hnested⟩ := ih hlt
    refine hc.exists_sketch hdepth hlt.le (by split at hn <;> omega) htop hrs ?_
    rw [List.append_assoc]
    exact .plain_append hks (.colon hnested)
  | @statement n depth b c ks cs hdepth hc hks _ ih =>
    have hle : n ≤ top ∧ depth ≤ top := by
      unfold Follows at hdepth
      cases b <;> simp at hdepth hn <;> omega
    obtain ⟨rs, hrs, hnested⟩ := ih hle.2
    exact hc.exists_sketch hdepth hle.2 hle.1 htop hrs (.plain_append hks hnested)

/-- Rows of code that nest from the beginning make a text with a stream that nests. -/
theorem Nested.exists_sketchText (h : Nested top 0 false cs) (htop : 4 * top < UInt32.size) :
    ∃ rs, sketchText cs = some rs ∧ WellNested top 0 false (rs.map Prod.fst) := by
  obtain ⟨rs, hrs, hnested⟩ := h.exists_sketch htop (Nat.zero_le top)
  rw [margins, Layout.sketch_of_first_column (by simp) h.first_column] at hrs
  obtain ⟨rs, htext, rfl⟩ := Option.map_eq_some_iff.1 hrs
  -- The text alone has no line break in front of its first line.
  have hcons : WellNested top 0 false (.newline :: rs.map Prod.fst) := hnested
  cases hcons with
  | other _ hrest => exact ⟨rs, htext, hrest⟩

end Stream

/-! ## Programs -/

/-- A text is a well-formed program of as many lines of code as `lines` says, with blocks that are
nested no deeper than `maxDepth`. -/
structure WellFormed (source : String) (maxDepth lines : Nat) : Prop where
  /-- All three streams are read to their ends. -/
  dented : ∃ t, t.kind = .eof ∧ (Variant.dented.drain source).finish = .ok t
  rawDented : ∃ t, t.kind = .eof ∧ (Variant.rawDented.drain source).finish = .ok t
  braced : ∃ prepared t, Variant.braced.prepare source = .ok prepared ∧ t.kind = .eof ∧
    (Variant.braced.drain prepared).finish = .ok t
  /-- Each colon is directly followed by the opening of a block. -/
  indent_of_colon : ∀ i, (Variant.dented.drain source).kinds[i]? = some .colon →
    (Variant.dented.drain source).kinds[i + 1]? = some .indent
  /-- Each opening of a block is directly behind a colon. -/
  colon_of_indent : ∀ i, (Variant.dented.drain source).kinds[i]? = some .indent →
    ∃ j, i = j + 1 ∧ (Variant.dented.drain source).kinds[j]? = some .colon
  /-- Lines of code end, or open a block of at least one line. -/
  items : Items (codeLines source) (Variant.dented.drain source).tokens
  /-- Nowhere are more than `maxDepth` blocks open. -/
  depth_le : ∀ i, ((Variant.dented.drain source).kinds.take i).count .indent ≤
    ((Variant.dented.drain source).kinds.take i).count .dedent + maxDepth
  length_codeLines : (codeLines source).length = lines

/-- Rows of code that nest make a well-formed program. -/
theorem Nested.wellFormed {top maxDepth : Nat} {source : String}
    (h : Nested top 0 false (codes source.toList)) (htop : 4 * top < UInt32.size)
    (hmax : top ≤ maxDepth) : WellFormed source maxDepth (codes source.toList).length := by
  obtain ⟨rs, hrs, hnested⟩ := h.exists_sketchText htop
  have hreadings := Variant.readings_dented_iff.2 ⟨h.clean, hrs⟩
  obtain ⟨⟨t, ht⟩, -⟩ := Drain.readings_eq_some.1 hreadings
  rw [← Variant.kinds_of_readings hreadings] at hnested
  obtain ⟨xs, hxs⟩ := Scan.exists_map_ok_of_clean h.clean
  have hcount : (Variant.dented.drain source).count =
      .ok (Variant.dented.drain source).tokens.length := by
    rw [Drain.count, ht]
    rfl
  obtain ⟨prepared, hprepared, hbraced⟩ := Variant.count_prepare_braced hcount
  refine ⟨⟨t, Reader.kind_of_drain_finish ht, ht⟩, ?_, ?_, fun i => (hnested.colon_iff i).1, ?_, ?_,
    ?_, ?_⟩
  · rw [Variant.drain_rawDented, hxs, Drain.ofItems_map_ok]
    exact ⟨_, rfl, rfl⟩
  · rw [Drain.count] at hbraced
    cases hu : (Variant.braced.drain prepared).finish with
    | error e =>
      rw [hu] at hbraced
      cases hbraced
    | ok u => exact ⟨prepared, u, hprepared, Reader.kind_of_drain_finish hu, hu⟩
  · intro i hi
    cases i with
    | zero => exact absurd (hnested.getElem?_zero.1 hi) Bool.false_ne_true
    | succ j => exact ⟨j, rfl, (hnested.colon_iff j).2 hi⟩
  · rw [Variant.drain_dented hxs] at ht ⊢
    rw [codeLines_eq hxs]
    exact Layout.items_outlineText (Line.isLine_of_mem hxs)
      (Line.exists_newline_of_mem_tail hxs) ht
  · intro i
    have hcount := hnested.count_take_le (Nat.zero_le top) i
    omega
  · rw [codeLines_eq hxs, List.length_map]
    exact (Line.shows_ofText hxs).length_eq

/-- **Generated programs are well formed.** For every outcome of the draws, a synthetic program is
read to its end as each of the variants, its colons and the openings of its blocks are neighbours,
each of which opens one block of at least one line, and blocks are nested no deeper than asked for.
It has one line of code for each step, and one more exactly if the last step wrote a header. -/
theorem generated_programs_are_well_formed (c : Config) (h : c.statements * 4 < UInt32.size) :
    (∀ {σ : Type} (dice : Dice σ) (s : σ),
      WellFormed (text (linesWith dice s c.statements c.maxDepth)) c.maxDepth
        (c.statements +
          if (draftWith dice s c.statements c.maxDepth).endsInHeader then 1 else 0)) ∧
      WellFormed c.source c.maxDepth
        (c.statements +
          if (draftWith Dice.ofGenerator (Generator.ofSeed c.seed) c.statements
            c.maxDepth).endsInHeader then 1 else 0) := by
  have hdice : ∀ {σ : Type} (dice : Dice σ) (s : σ),
      WellFormed (text (linesWith dice s c.statements c.maxDepth)) c.maxDepth
        (c.statements +
          if (draftWith dice s c.statements c.maxDepth).endsInHeader then 1 else 0) := by
    intro σ dice s
    obtain ⟨⟨n, hnests⟩, hcount⟩ := nests_linesWith dice s c.statements c.maxDepth
    obtain ⟨hnested, hlength⟩ := hnests.nested
    have htop : 4 * min c.statements c.maxDepth < UInt32.size := by omega
    have hwell := hnested.wellFormed htop (Nat.min_le_right ..)
    rw [hlength, hcount] at hwell
    exact hwell
  exact ⟨hdice, hdice Dice.ofGenerator (Generator.ofSeed c.seed)⟩

/-- Dice that roll the lowest number there is. -/
def lowest : Dice Unit where
  below _ hn := return ⟨0, hn⟩
  belowWide _ hn := return ⟨0, hn⟩
  coin := return true

/-- The statement of `generated_programs_are_well_formed` for three steps that end in a header. -/
theorem generated_programs_are_well_formed_lowest :
    3 * 4 < UInt32.size ∧
      WellFormed ("\ndef alpha(alpha, alpha):\n    return alpha + 0\n" ++
        "\ndef alpha(alpha, alpha):\n    return 0\n") 2 4 := by
  have hbound : 3 * 4 < UInt32.size := by decide
  have hlines : linesWith lowest () 3 2 =
      [.blank, .header 0 (.define "alpha" "alpha" "alpha"),
        .statement 1 (.giveBack ⟨"alpha", "+", .number 0⟩),
        .blank, .header 0 (.define "alpha" "alpha" "alpha"), .statement 1 .filler] := by
    decide
  have hwell := (generated_programs_are_well_formed ⟨3, 2, 42⟩ hbound).1 lowest ()
  rw [hlines] at hwell
  exact ⟨hbound, hwell⟩

end OffsideBench.Fixture

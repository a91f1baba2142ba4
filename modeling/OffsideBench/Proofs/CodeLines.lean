import Mathlib.Data.List.DropRight
import Mathlib.Data.List.SplitBy
import OffsideBench.Proofs.Layout.Outline

/-!
# Lines of code

Which content tokens of a text stand on one line, and how wide the lines are indented, said of the
text and of nothing that reads it with structure. Widths are natural numbers here and do not wrap
around.

Main statements: `codeLines_eq` and `indentWidths_eq`, by which the lines that a row of lexemes
makes are the lines of the text.
-/

namespace OffsideBench

open Token (Kind)

/-! ## Lines of a text -/

namespace Token

/-- The text in front of a token. -/
def before (source : String) (t : Token) : List Char :=
  ((slice? source 0 t.start).getD "").toList

/-- The number of line feeds in front of a token, which says on what line it starts. -/
def row (source : String) (t : Token) : Nat := (t.before source).count '\n'

/-- The text in front of a token on its line. -/
def lead (source : String) (t : Token) : List Char := (t.before source).rtakeWhile (· ≠ '\n')

end Token

/-- The lines of code of a text: its content tokens, those that start on one line together. -/
def codeLines (source : String) : List (List Token) :=
  ((Variant.rawDented.drain source).tokens.filter (·.kind.isContent)).splitBy
    fun t u => t.row source == u.row source

/-- The content tokens of a line, of which there is at least one. -/
def IsLine (g : List Token) : Prop := g ≠ [] ∧ ∀ t ∈ g, t.kind.isContent = true

/-- The first tokens of the lines of code of a text. -/
def lineHeads (source : String) : List Token := (codeLines source).filterMap List.head?

/-- The width of a text without line feeds that starts at the first column. -/
def columns (cs : List Char) : Nat :=
  cs.foldl (fun w c => if c = '\t' then (w / 8 + 1) * 8 else w + c.utf8Size) 0

/-- The indentation widths of the lines of code of a text. The first line is measured up to its
first token, a later one over the blanks that follow its line break. -/
def indentWidths (source : String) : List Nat :=
  match lineHeads source with
  | [] => []
  | t :: ts =>
    columns (t.lead source) :: ts.map fun u => columns ((u.lead source).takeWhile isIndentBlank)

namespace IsLine

variable {g : List Token}

/-- A line holds no structure. -/
theorem count_kind (hg : IsLine g) {k : Kind} (hk : k.isContent = false) :
    (g.map Token.kind).count k = 0 := by
  refine List.count_eq_zero.2 fun hm => ?_
  obtain ⟨t, ht, rfl⟩ := List.mem_map.1 hm
  exact Kind.ne_of_isContent (hg.2 t ht) hk rfl

theorem countP_isContent (hg : IsLine g) :
    (g.map Token.kind).countP Kind.isContent = g.length := by
  rw [List.countP_map]
  exact List.countP_eq_length.2 hg.2

end IsLine

/-! ## Widths of positions -/

theorem columns_concat (cs : List Char) (c : Char) :
    columns (cs ++ [c]) =
      if c = '\t' then (columns cs / 8 + 1) * 8 else columns cs + c.utf8Size := by
  rw [columns, List.foldl_append]
  rfl

theorem columns_lt_concat (cs : List Char) (c : Char) : columns cs < columns (cs ++ [c]) := by
  rw [columns_concat]
  have := c.utf8Size_pos
  split <;> omega

theorem columns_tabs (n : Nat) : columns (List.replicate n '\t') = 8 * n := by
  induction n with
  | zero => rfl
  | succ n ih =>
    rw [List.replicate_succ', columns_concat, if_pos rfl, ih]
    omega

/-- A character leads a width that wraps around as far as one that does not: the numbers of a word
end at a tab stop. -/
theorem widen_ofNat (w : Nat) (c : Char) :
    widen (.ofNat w) c = .ofNat (if c = '\t' then (w / 8 + 1) * 8 else w + c.utf8Size) := by
  by_cases hc : c = '\t'
  · have htab : tabWidth.toNat = 8 := rfl
    have hone : (1 : UInt32).toNat = 1 := rfl
    refine UInt32.toNat_inj.1 ?_
    rw [widen, if_pos hc, if_pos hc]
    simp only [UInt32.toNat_add, UInt32.toNat_mul, UInt32.toNat_div, UInt32.toNat_ofNat', htab,
      hone]
    omega
  · rw [widen, if_neg hc, if_neg hc, UInt32.ofNat_add]

/-- A width is the number of columns, wrapped around. -/
theorem lineWidth_eq_ofNat (cs : List Char) : lineWidth cs = .ofNat (columns cs) :=
  List.foldl_hom UInt32.ofNat widen_ofNat

/-- As long as a width does not wrap around it is the number of columns. -/
theorem toNat_lineWidth {cs : List Char} (h : columns cs < UInt32.size) :
    (lineWidth cs).toNat = columns cs := by
  rw [lineWidth_eq_ofNat, UInt32.toNat_ofNat_of_lt' h]

/-- The last line of a text is what follows its last line feed. -/
theorem rtakeWhile_newline (as : List Char) {bs : List Char} (h : '\n' ∉ bs) :
    (as ++ '\n' :: bs).rtakeWhile (· ≠ '\n') = bs := by
  have hbs : ∀ c ∈ bs.reverse, decide (c ≠ '\n') = true := by
    intro c hc
    refine decide_eq_true ?_
    rintro rfl
    exact h (List.mem_reverse.1 hc)
  rw [List.rtakeWhile, List.reverse_append, List.reverse_cons, List.append_assoc,
    List.takeWhile_append_of_pos hbs]
  simp

/-- The width of a position is the width of the text in front of it on its line. -/
theorem Position.width_past (cs : List Char) :
    (Position.origin.past cs).width = lineWidth (cs.rtakeWhile (· ≠ '\n')) := by
  induction cs using List.reverseRecOn with
  | nil => rfl
  | append_singleton cs c ih =>
    rw [past_append, past_cons, past_nil, List.rtakeWhile_concat]
    by_cases hc : c = '\n'
    · subst hc
      rfl
    · rw [if_pos (by simpa using hc), lineWidth, List.foldl_append]
      show _ = widen (lineWidth _) c
      rw [← ih, next, if_neg hc]

/-! ## Lexemes in their text -/

section Behind

variable {source : String} {front text rest : List Char}

theorem Lexeme.before_behind (k : Kind) (h : front ++ text ++ rest = source.toList) :
    (Lexeme.behind front k text).token.before source = front := by
  have hs : source = "" ++ String.ofList front ++ String.ofList (text ++ rest) := by
    rw [String.empty_append, ← String.ofList_append, ← List.append_assoc, h, String.ofList_toList]
  have hslice := Token.slice?_append "" (String.ofList front) (String.ofList (text ++ rest))
  rw [← hs] at hslice
  have hstart : (Lexeme.behind front k text).token.start =
      "".utf8ByteSize + (String.ofList front).utf8ByteSize := by
    rw [String.utf8ByteSize_empty, Nat.zero_add]
    exact Position.origin_past_offset front
  rw [Token.before, hstart]
  rw [String.utf8ByteSize_empty] at hslice ⊢
  rw [hslice]
  exact String.toList_ofList

end Behind

/-- A line of code lies in the text as its lexemes say: they stand in one row of it, and the widths
are those of the text. -/
structure Line.LiesIn (source : String) (l : Line) : Prop where
  isContent : ∀ x ∈ l.lexemes, x.kind.isContent = true
  row : ∀ x ∈ l.lexemes, x.token.row source = l.first.token.row source
  width : l.first.start.width = lineWidth (l.first.token.lead source)
  newline : ∀ n, l.newline? = some n → n.kind = .newline ∧
    n.stop.width = lineWidth ((l.first.token.lead source).takeWhile isIndentBlank)

/-- Lines of code lie in the text `source` behind its beginning `front`, where `rest` is left. -/
structure Line.LieIn (source : String) (front rest : List Char) (ls : List Line) : Prop where
  each : ∀ l ∈ ls, l.LiesIn source
  rows : ls.Pairwise fun l l' => l.first.token.row source < l'.first.token.row source
  breaks : ∀ l ∈ ls.tail, l.newline?.isSome
  /-- Up to the first lexeme of a line that was begun before there is no line feed. -/
  begun : ∀ l ∈ ls.head?, l.newline? = none → ∃ gap, gap <+: rest ∧ '\n' ∉ gap ∧
    l.first.token.before source = front ++ gap
  /-- Another first line starts behind a line feed. -/
  separate : ∀ l ∈ ls.head?, l.newline?.isSome → front.count '\n' < l.first.token.row source

namespace Line.LieIn

variable {source : String} {front text rest : List Char} {ls : List Line}

theorem nil : LieIn source front rest [] := by
  constructor <;> simp

/-- Passing a gap. -/
theorem gap (h : LieIn source (front ++ text) rest ls) (ht : '\n' ∉ text) :
    LieIn source front (text ++ rest) ls := by
  refine ⟨h.each, h.rows, h.breaks, ?_, ?_⟩
  · intro l hl hn
    obtain ⟨gap, hrest, hgap, he⟩ := h.begun l hl hn
    refine ⟨text ++ gap, (List.prefix_append_right_inj text).2 hrest, ?_, ?_⟩
    · rw [List.mem_append]
      exact not_or.2 ⟨ht, hgap⟩
    · rw [he, List.append_assoc]
  · intro l hl hn
    have hlt := h.separate l hl hn
    rw [List.count_append] at hlt
    omega

/-- A line that starts at once, in front of lines that start behind line feeds. -/
theorem of_behind (hs : front ++ text ++ rest = source.toList) {k : Kind}
    (hk : k.isContent = true) {ys : List Lexeme}
    (hys : ∀ y ∈ ys, y.kind.isContent = true ∧ y.token.row source = front.count '\n')
    (heach : ∀ l ∈ ls, l.LiesIn source)
    (hrows : ls.Pairwise fun l l' => l.first.token.row source < l'.first.token.row source)
    (hbreaks : ∀ l ∈ ls, l.newline?.isSome)
    (hlt : ∀ l ∈ ls, front.count '\n' < l.first.token.row source) :
    LieIn source front (text ++ rest) (⟨none, .behind front k text, ys⟩ :: ls) := by
  have hbefore := Lexeme.before_behind k hs
  have hrow : (Lexeme.behind front k text).token.row source = front.count '\n' :=
    congrArg (List.count '\n') hbefore
  have hline : Line.LiesIn source ⟨none, .behind front k text, ys⟩ := by
    refine ⟨?_, ?_, ?_, by rintro n ⟨⟩⟩
    · intro x hx
      rcases List.mem_cons.1 hx with rfl | hx
      · exact hk
      · exact (hys x hx).1
    · intro x hx
      rcases List.mem_cons.1 hx with rfl | hx
      · rfl
      · exact (hys x hx).2.trans hrow.symm
    · show (Position.origin.past front).width = _
      rw [Token.lead, hbefore]
      exact Position.width_past front
  refine ⟨?_, ?_, hbreaks, ?_, ?_⟩
  · intro l hl
    rcases List.mem_cons.1 hl with rfl | hl
    · exact hline
    · exact heach l hl
  · refine List.pairwise_cons.2 ⟨?_, hrows⟩
    intro l hl
    show (Lexeme.behind front k text).token.row source < _
    rw [hrow]
    exact hlt l hl
  · intro l hl _
    obtain rfl := Option.some.inj hl
    exact ⟨[], List.nil_prefix, by simp, by rw [hbefore, List.append_nil]⟩
  · intro l hl hn
    obtain rfl := Option.some.inj hl
    cases hn

/-- A lexeme that is no line break joins the line that goes on behind it, or is a line of its
own. -/
theorem put (h : LieIn source (front ++ text) rest ls)
    (hs : front ++ text ++ rest = source.toList) {k : Kind} (hk : k.isContent = true)
    (ht : '\n' ∉ text) :
    LieIn source front (text ++ rest) (Line.put (.behind front k text) ls) := by
  have hcount : (front ++ text).count '\n' = front.count '\n' := by
    rw [List.count_append, List.count_eq_zero.2 ht, Nat.add_zero]
  match ls, h with
  | [], _ => exact of_behind hs hk (by simp) (by simp) .nil (by simp) (by simp)
  | ⟨none, y, ys⟩ :: ls, h =>
    obtain ⟨gap, -, hgap, hy⟩ := h.begun _ rfl rfl
    have hrow : y.token.row source = front.count '\n' := by
      have hc := congrArg (List.count '\n') hy
      rw [List.count_append, List.count_eq_zero.2 hgap, Nat.add_zero, hcount] at hc
      exact hc
    have hline := h.each _ List.mem_cons_self
    have hrows := List.pairwise_cons.1 h.rows
    refine of_behind hs hk ?_ (fun l hl => h.each l (List.mem_cons_of_mem _ hl)) hrows.2 h.breaks ?_
    · intro x hx
      exact ⟨hline.isContent x hx, (hline.row x hx).trans hrow⟩
    · intro l hl
      rw [← hrow]
      exact hrows.1 l hl
  | ⟨some n, y, ys⟩ :: ls, h =>
    have hlt := h.separate _ rfl rfl
    rw [hcount] at hlt
    refine of_behind hs hk (by simp) h.each h.rows ?_ ?_
    · intro l hl
      rcases List.mem_cons.1 hl with rfl | hl
      · rfl
      · exact h.breaks l hl
    · intro l hl
      rcases List.mem_cons.1 hl with rfl | hl
      · exact hlt
      · exact hlt.trans ((List.pairwise_cons.1 h.rows).1 l hl)

/-- A line break is the one in front of the line behind it, unless another one follows first. -/
theorem separate_newline (h : LieIn source (front ++ text) rest ls) (hl : LineBreaks text)
    (hrest : ∀ x ∈ rest.head?, isIndentBlank x = false) :
    LieIn source front (text ++ rest) (Line.separate (.behind front .newline text) ls) := by
  obtain ⟨first, blanks, rfl, hb⟩ := hl.eq_append
  have hblanks : '\n' ∉ blanks := fun hn => absurd (hb _ hn) (by decide)
  match ls, h with
  | [], _ => exact nil
  | ⟨none, y, ys⟩ :: ls, h =>
    obtain ⟨gap, hpre, hgap, hy⟩ := h.begun _ rfl rfl
    have hbefore : y.token.before source = front ++ first ++ '\n' :: (blanks ++ gap) := by
      rw [hy]
      simp
    have hlead : y.token.lead source = blanks ++ gap := by
      rw [Token.lead, hbefore, rtakeWhile_newline]
      rw [List.mem_append]
      exact not_or.2 ⟨hblanks, hgap⟩
    have hgapBlank : gap.takeWhile isIndentBlank = [] := by
      cases gap with
      | nil => rfl
      | cons c gap =>
        obtain ⟨rest', rfl⟩ := hpre
        exact List.takeWhile_cons_of_neg (by simp [hrest c rfl])
    have hline := h.each _ List.mem_cons_self
    obtain ⟨hlt, hrows⟩ := List.pairwise_cons.1 h.rows
    refine ⟨?_, List.pairwise_cons.2 ⟨hlt, hrows⟩, h.breaks, ?_, ?_⟩
    · intro l hl
      rcases List.mem_cons.1 hl with rfl | hl
      · refine ⟨hline.isContent, hline.row, hline.width, ?_⟩
        rintro n ⟨⟩
        refine ⟨rfl, ?_⟩
        show (Position.origin.past (front ++ (first ++ '\n' :: blanks))).width =
          lineWidth ((y.token.lead source).takeWhile isIndentBlank)
        rw [hlead, List.takeWhile_append_of_pos hb, hgapBlank, List.append_nil,
          Position.width_past, ← List.append_assoc, rtakeWhile_newline _ hblanks]
      · exact h.each l (List.mem_cons_of_mem _ hl)
    · intro l hl hn
      obtain rfl := Option.some.inj hl
      cases hn
    · intro l hl _
      obtain rfl := Option.some.inj hl
      show front.count '\n' < (y.token.before source).count '\n'
      rw [hbefore]
      simp only [List.count_append, List.count_cons_self]
      omega
  | ⟨some m, y, ys⟩ :: ls, h =>
    refine ⟨h.each, h.rows, h.breaks, ?_, ?_⟩
    · intro l hl hn
      obtain rfl := Option.some.inj hl
      cases hn
    · intro l hl hn
      have hlt := h.separate l hl hn
      rw [List.count_append] at hlt
      omega

end Line.LieIn

/-- The lines that the first lexemes of a text make lie in the text. -/
theorem Line.lieIn_ofLexemes {source : String} {front cs : List Char} {xs : List Lexeme}
    (hs : front ++ cs = source.toList)
    (h : xs.map .ok <+: (Scan.ofChars .dented (Position.origin.past front) cs).items) :
    Line.LieIn source front cs (Line.ofLexemes xs) := by
  -- The induction is on the pieces of the text. What carries it is that the lines behind a piece
  -- say whether their first one goes on (`begun`) or starts behind a line feed (`separate`).
  fun_induction Dialect.dented.stretches cs generalizing front xs with
  | case1 =>
    rw [Scan.ofChars_nil] at h
    obtain rfl := List.map_eq_nil_iff.1 (List.prefix_nil.1 h)
    exact .nil
  | case2 c cs ih =>
    have htext := Dialect.dented.piece_text_append_rest c cs
    have hs' : front ++ (Dialect.dented.piece c cs).text ++ (Dialect.dented.piece c cs).rest =
        source.toList := by rw [List.append_assoc, htext, hs]
    rw [Scan.items_ofChars_cons] at h
    rw [← htext]
    cases xs with
    | nil => exact .nil
    | cons x xs =>
      cases hr : (Dialect.dented.piece c cs).role with
      | gap =>
        rw [hr] at h
        exact (ih hs' h).gap (Dialect.not_mem_gap hr)
      | fault =>
        rw [hr] at h
        cases (List.cons_prefix_cons.1 h).1
      | token k =>
        rw [hr] at h
        obtain ⟨hx, hxs⟩ := List.cons_prefix_cons.1 h
        obtain rfl : x = .behind front k (Dialect.dented.piece c cs).text := Except.ok.inj hx
        have hspell := Dialect.dented.spells_piece c cs hr
        have hrest := ih hs' hxs
        by_cases hk : k = .newline
        · subst hk
          rw [Line.ofLexemes_newline rfl]
          exact hrest.separate_newline (hspell.lineBreaks rfl) (Dialect.rest_of_newline hr)
        · rw [Line.ofLexemes_put hk]
          exact hrest.put hs' (hspell.isContent_or_newline.resolve_right hk)
            (hspell.not_mem_newline hk)

/-! ## The lines of a text and the lines of its lexemes -/

namespace Line

theorem flatMap_lexemes_put (x : Lexeme) (ls : List Line) :
    (put x ls).flatMap lexemes = x :: ls.flatMap lexemes := by
  match ls with
  | [] => rfl
  | ⟨none, y, ys⟩ :: ls => rfl
  | ⟨some n, y, ys⟩ :: ls => rfl

theorem flatMap_lexemes_separate (n : Lexeme) (ls : List Line) :
    (separate n ls).flatMap lexemes = ls.flatMap lexemes := by cases ls <;> rfl

/-- Lines hold all lexemes but the line breaks, in order. -/
theorem flatMap_lexemes_ofLexemes (xs : List Lexeme) :
    (ofLexemes xs).flatMap lexemes = xs.filter (·.kind ≠ .newline) := by
  induction xs with
  | nil => rfl
  | cons x xs ih =>
    by_cases hx : x.kind = .newline
    · rw [ofLexemes_newline hx, flatMap_lexemes_separate, ih,
        List.filter_cons_of_neg (by simp [hx])]
    · rw [ofLexemes_put hx, flatMap_lexemes_put, ih, List.filter_cons_of_pos (by simp [hx])]

/-- The width that decides about the blocks in front of a line. -/
def indentation (l : Line) : UInt32 :=
  match l.newline? with
  | none => l.first.start.width
  | some n => n.stop.width

/-- The widths of all lines of a text; the first one has to start at the first column. -/
def widths : List Line → List Nat
  | [] => []
  | l :: ls => l.first.start.width.toNat :: ls.map fun l => l.indentation.toNat

/-- Lines that lie in a text are told apart by the rows of their tokens. -/
theorem LieIn.splitBy_row {source : String} {front cs : List Char} {ls : List Line}
    (h : LieIn source front cs ls) :
    ((ls.map tokens).flatten.splitBy fun t u => t.row source == u.row source) = ls.map tokens := by
  have hrow : ∀ l ∈ ls, ∀ t ∈ l.tokens, t.row source = l.first.token.row source := by
    intro l hl t ht
    obtain ⟨x, hx, rfl⟩ := List.mem_map.1 ht
    exact (h.each l hl).row x hx
  refine List.splitBy_flatten ?_ ?_ ?_
  · intro hn
    obtain ⟨l, -, hl⟩ := List.mem_map.1 hn
    cases hl
  · intro m hm
    obtain ⟨l, hl, rfl⟩ := List.mem_map.1 hm
    refine (List.pairwise_of_forall_mem_list ?_).isChain
    intro t ht u hu
    rw [beq_iff_eq, hrow l hl t ht, hrow l hl u hu]
  · refine List.Pairwise.isChain (List.pairwise_map.2 ?_)
    refine h.rows.imp_of_mem ?_
    intro l l' hl hl' hlt
    have ha : l.tokens ≠ [] := List.cons_ne_nil _ _
    have hb : l'.tokens ≠ [] := List.cons_ne_nil _ _
    refine ⟨ha, hb, ?_⟩
    rw [beq_eq_false_iff_ne, hrow l hl _ (List.getLast_mem ha), hrow l' hl' _ (List.head_mem hb)]
    exact hlt.ne

end Line

section Lines

variable {source : String} {xs : List Lexeme}
  (h : (Scan.ofText .dented source).items = xs.map .ok)

include h

theorem Line.lieIn_ofText : Line.LieIn source [] source.toList (Line.ofLexemes xs) :=
  Line.lieIn_ofLexemes rfl (h ▸ List.prefix_rfl)

theorem Line.isLine_of_mem : ∀ l ∈ Line.ofLexemes xs, IsLine l.tokens := by
  intro l hl
  refine ⟨List.cons_ne_nil _ _, ?_⟩
  intro t ht
  obtain ⟨x, hx, rfl⟩ := List.mem_map.1 ht
  exact ((Line.lieIn_ofText h).each l hl).isContent x hx

/-- A line break stands in front of each line but the first. -/
theorem Line.exists_newline_of_mem_tail :
    ∀ l ∈ (Line.ofLexemes xs).tail, ∃ n, l.newline? = some n ∧ n.kind = .newline := by
  intro l hl
  have hlie := Line.lieIn_ofText h
  obtain ⟨n, hn⟩ := Option.isSome_iff_exists.1 (hlie.breaks l hl)
  exact ⟨n, hn, ((hlie.each l (List.mem_of_mem_tail hl)).newline n hn).1⟩

/-- The lines that the lexemes of a text make are the lines of code of the text. -/
theorem codeLines_eq : codeLines source = (Line.ofLexemes xs).map Line.tokens := by
  have hcontent : ∀ x ∈ xs, x.kind.isContent = decide (x.kind ≠ .newline) := by
    intro x hx
    rcases Scan.kind_of_items h x hx with hk | hk
    · rw [hk, eq_comm, decide_eq_true_iff]
      exact Kind.ne_of_isContent hk rfl
    · rw [hk]
      rfl
  rw [codeLines, Variant.drain_rawDented, h, Drain.ofItems_map_ok]
  show (((xs.map Lexeme.token).filter _).splitBy _) = _
  rw [List.filter_map, List.filter_congr (q := fun x => decide (x.kind ≠ .newline)) hcontent,
    ← Line.flatMap_lexemes_ofLexemes, List.map_flatMap, List.flatMap_def]
  exact (Line.lieIn_ofText h).splitBy_row

theorem lineHeads_eq : lineHeads source = (Line.ofLexemes xs).map fun l => l.first.token := by
  rw [lineHeads, codeLines_eq h, List.filterMap_map]
  exact congrFun List.filterMap_eq_map _

/-- As long as they do not wrap around, the widths of the lines are the columns of the text. -/
theorem indentWidths_eq (hw : ∀ w ∈ indentWidths source, w < UInt32.size) :
    indentWidths source = Line.widths (Line.ofLexemes xs) := by
  have hlie := Line.lieIn_ofText h
  unfold indentWidths at hw ⊢
  rw [lineHeads_eq h] at hw ⊢
  cases hls : Line.ofLexemes xs with
  | nil => rfl
  | cons l ls =>
    rw [hls] at hw hlie
    simp only [List.map_cons, List.map_map, List.forall_mem_cons, List.forall_mem_map] at hw ⊢
    rw [Line.widths]
    refine congrArg₂ List.cons ?_ (List.map_congr_left ?_)
    · rw [(hlie.each l List.mem_cons_self).width]
      exact (toNat_lineWidth hw.1).symm
    · intro k hk
      obtain ⟨n, hn⟩ := Option.isSome_iff_exists.1 (hlie.breaks k hk)
      rw [Line.indentation, hn]
      show columns _ = n.stop.width.toNat
      rw [((hlie.each k (List.mem_cons_of_mem _ hk)).newline n hn).2]
      exact (toNat_lineWidth (hw.2 k hk)).symm

end Lines

end OffsideBench

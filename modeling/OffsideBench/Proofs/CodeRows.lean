import OffsideBench.Proofs.CodeLines
import OffsideBench.Proofs.Rows

/-!
# Rows with code

What a row of a text holds, wherever in the text it stands: the blanks in front of its first token,
and its stretches. Rows without tokens hold nothing, whatever blanks and comments are on them.

Main statements: `Line.shows_codes`, the lines of code that the lexemes of a text make show what its
rows hold; and `Scan.exists_map_ok_of_clean`, a text whose rows have no faults has none.
-/

namespace OffsideBench

open Token (Kind)

/-- What a row with code holds. -/
structure Code where
  /-- The blanks in front of the first stretch that is no gap. -/
  lead : List Char
  /-- The stretches that are no gaps. -/
  stretches : List Stretch
deriving DecidableEq, Repr, Inhabited

namespace Code

/-- The width of the indentation, which decides about blocks. -/
def width (c : Code) : UInt32 := lineWidth (c.lead.takeWhile isIndentBlank)

/-- The column of the first token, which has to be the first one on the first line of code. -/
def column (c : Code) : UInt32 := lineWidth c.lead

/-- The tokens: their kinds and their texts. -/
def tokens (c : Code) : List (Kind × Option String) := c.stretches.filterMap Stretch.reading

/-- No stretch is a fault. -/
def Clean (c : Code) : Prop := ∀ s ∈ c.stretches, s.reading.isSome

/-- What a row holds, if there is code on it. -/
def ofRow? (row : List Char) : Option Code :=
  if Dialect.dented.solid row = [] then none
  else some ⟨row.takeWhile Dialect.dented.isBlank, Dialect.dented.solid row⟩

theorem ofRow?_eq_none {row : List Char} (h : Dialect.dented.solid row = []) : ofRow? row = none :=
  if_pos h

theorem ofRow?_eq_some {row : List Char} (h : Dialect.dented.solid row ≠ []) :
    ofRow? row = some ⟨row.takeWhile Dialect.dented.isBlank, Dialect.dented.solid row⟩ := if_neg h

/-- A row behind further blanks holds the same tokens. -/
theorem ofRow?_blanks {blanks : List Char} (hb : ∀ c ∈ blanks, isIndentBlank c = true)
    (row : List Char) :
    ofRow? (blanks ++ row) = (ofRow? row).map fun c => ⟨blanks ++ c.lead, c.stretches⟩ := by
  have hblank : ∀ c ∈ blanks, Dialect.dented.isBlank c = true := fun c hc =>
    Scan.isBlank_of_isIndentBlank (hb c hc) .dented
  have hsolid := Dialect.solid_blanks hblank row
  by_cases hrow : Dialect.dented.solid row = []
  · rw [ofRow?_eq_none hrow, ofRow?_eq_none (hsolid.trans hrow)]
    rfl
  · rw [ofRow?_eq_some hrow, ofRow?_eq_some (hsolid ▸ hrow), hsolid,
      List.takeWhile_append_of_pos hblank]
    rfl

end Code

/-- What the rows of a text hold, row by row. -/
def codes (cs : List Char) : List Code := (rows cs).filterMap Code.ofRow?

@[simp]
theorem codes_nil : codes [] = [] := by
  show [[]].filterMap Code.ofRow? = []
  rw [List.filterMap_cons, Code.ofRow?_eq_none (Dialect.solid_nil _)]
  rfl

theorem codes_of_not_mem {cs : List Char} (h : '\n' ∉ cs) :
    codes cs = (Code.ofRow? cs).toList := by
  rw [codes, rows_of_not_mem h, List.filterMap_cons, List.filterMap_nil]
  cases Code.ofRow? cs <;> rfl

/-- Blanks in front of a row stay on the row. -/
theorem not_mem_blanks_append {blanks row : List Char} (hb : ∀ c ∈ blanks, isIndentBlank c = true)
    (h : '\n' ∉ row) : '\n' ∉ blanks ++ row := by
  rw [List.mem_append]
  exact not_or.2 ⟨fun hm => absurd (hb _ hm) (by decide), h⟩

/-- A text of one row behind further blanks. -/
theorem codes_blanks_row {blanks row : List Char} (hb : ∀ c ∈ blanks, isIndentBlank c = true)
    (h : '\n' ∉ row) :
    codes (blanks ++ row) =
      (Code.ofRow? row).toList.map fun c => ⟨blanks ++ c.lead, c.stretches⟩ := by
  rw [codes_of_not_mem (not_mem_blanks_append hb h), Code.ofRow?_blanks hb]
  cases Code.ofRow? row <;> rfl

theorem EndsRow.codes_append {row br : List Char} (h : EndsRow row br) (rest : List Char) :
    codes (row ++ (br ++ rest)) = (Code.ofRow? row).toList ++ codes rest := by
  rw [codes, h.rows_append, List.filterMap_cons]
  cases Code.ofRow? row <;> rfl

/-- Behind whole lines a text holds what it holds alone. -/
theorem WholeLines.codes_append {as : List Char} (h : WholeLines as) (bs : List Char) :
    codes (as ++ bs) = codes as ++ codes bs := by
  induction as using rowInduction with
  | last cs hcs => rw [h.eq_nil hcs, codes_nil, List.nil_append, List.nil_append]
  | row row br rest hrow ih =>
    rw [List.append_assoc, List.append_assoc, hrow.codes_append, hrow.codes_append,
      ih h.of_append.of_append, List.append_assoc]

/-! ## The content of a row -/

section Row

variable {source : String} {front row cs after : List Char}

/-- A row holds no line breaks, so its content is all that is read of it. -/
theorem Scan.content_eq_items (h : '\n' ∉ row) :
    content (Position.origin.past front) row =
      (Scan.ofChars .dented (Position.origin.past front) row).items := by
  refine List.filter_eq_self.2 ?_
  rintro (e | x) hx
  · rfl
  · obtain ⟨before, text, rest, rfl, hs, -⟩ := mem_items hx
    have hne : x.kind ≠ .newline := by
      intro hk
      obtain ⟨first, blanks, rfl, -⟩ := (hs.lineBreaks hk).eq_append
      exact h (by simp)
    simp [isNewline, hne]

/-- The content of a row says what the row holds, whatever stands around it. -/
theorem Scan.map_reading_content (front : List Char) (h : '\n' ∉ row) (after : List Char) :
    (content (Position.origin.past front) row).map
        (fun item => item.toOption.map
          (Lexeme.reading (String.ofList (front ++ row ++ after)))) =
      (Dialect.dented.solid row).map Stretch.reading := by
  rw [content_eq_items h, map_reading_items_append]

/-- Content stands behind what is in front of it: on the same row if that reaches so far. -/
theorem Scan.row_of_mem_content (hs : front ++ cs ++ after = source.toList) {x : Lexeme}
    (hx : .ok x ∈ content (Position.origin.past front) cs) :
    front.count '\n' ≤ x.token.row source ∧
      ('\n' ∉ cs → x.token.row source = front.count '\n') := by
  obtain ⟨before, text, rest, rfl, -, hb⟩ := mem_items (List.mem_of_mem_filter hx)
  have hbefore : x.token.before source = front ++ before := by
    rw [hb]
    refine Lexeme.before_behind x.kind (?_ : _ ++ text ++ (rest ++ after) = _)
    rw [← hs]
    simp
  rw [Token.row, hbefore, List.count_append]
  refine ⟨Nat.le_add_right _ _, fun h => ?_⟩
  have hcount : before.count '\n' = 0 := List.count_eq_zero.2 fun hm => h (by simp [hm])
  rw [hcount, Nat.add_zero]

/-- Only blanks and comments are gaps. -/
theorem Dialect.eq_of_gap {c : Char} {cs : List Char}
    (h : (Dialect.dented.piece c cs).role = .gap) : Dialect.dented.isBlank c = true ∨ c = '#' :=
  (piece_of_gap h).imp And.left And.left

/-- A comment is followed by nothing on its row, or by a lone carriage return. -/
theorem Scan.content_comment_ne {p : Position} {cs : List Char} (h : '\n' ∉ cs) (x : Lexeme)
    (items : List (Except LexError Lexeme)) : content p ('#' :: cs) ≠ .ok x :: items := by
  intro hx
  rw [content_of_gap rfl] at hx
  rcases Dialect.rest_comment h with ⟨hrest, -⟩ | ⟨ds, hrest, hpiece⟩
  · rw [hrest, content_nil] at hx
    cases hx
  · rw [hrest, content_cons, hpiece] at hx
    cases hx

/-- A row that starts with no blank starts with its first token, if that is no fault. -/
theorem Scan.eq_behind_of_content {c : Char} (hc : Dialect.dented.isBlank c = false)
    (h : '\n' ∉ c :: cs) {x : Lexeme} {items : List (Except LexError Lexeme)}
    (hx : content (Position.origin.past front) (c :: cs) = .ok x :: items) :
    ∃ k text rest, text ++ rest = c :: cs ∧ x = .behind front k text := by
  refine ⟨x.kind, (Dialect.dented.piece c cs).text, (Dialect.dented.piece c cs).rest,
    Dialect.dented.piece_text_append_rest c cs, ?_⟩
  cases hr : (Dialect.dented.piece c cs).role with
  | gap =>
    rcases Dialect.eq_of_gap hr with hb | rfl
    · rw [hc] at hb
      cases hb
    · exact absurd hx (content_comment_ne (fun hm => h (List.mem_cons_of_mem _ hm)) x items)
  | fault =>
    rw [content_cons, hr] at hx
    cases hx
  | token k =>
    rw [content_cons, hr, ← Position.past_append] at hx
    have hk : k ≠ .newline := by
      rintro rfl
      obtain ⟨first, tail, htext, -⟩ :=
        ((Dialect.dented.spells_piece c cs hr).lineBreaks rfl).eq_append
      refine h ?_
      rw [← Dialect.dented.piece_text_append_rest c cs, htext]
      simp
    have hfilter : [(.ok (.behind front k (Dialect.dented.piece c cs).text) :
        Except LexError Lexeme)].filter (!isNewline ·) =
        [.ok (.behind front k (Dialect.dented.piece c cs).text)] :=
      List.filter_cons_of_pos (by simp [isNewline, Lexeme.behind, hk])
    have hhead := (congrArg (· ++ _) hfilter.symm).trans hx
    obtain rfl : _ = x := Except.ok.inj (List.cons.inj hhead).1
    rfl

/-- In front of the first token of a row stand the blanks of the row. -/
theorem Scan.lead_of_content (hfront : WholeLines front)
    (hs : front ++ row ++ after = source.toList) (h : '\n' ∉ row)
    {x : Lexeme} {items : List (Except LexError Lexeme)}
    (hx : content (Position.origin.past front) row = .ok x :: items) :
    x.token.lead source = row.takeWhile Dialect.dented.isBlank := by
  have hblanks : ∀ c ∈ row.takeWhile Dialect.dented.isBlank, Dialect.dented.isBlank c = true :=
    fun c hc => List.mem_takeWhile_imp hc
  have hrow := List.takeWhile_append_dropWhile (p := Dialect.dented.isBlank) (l := row)
  have hhead := List.head?_dropWhile_not Dialect.dented.isBlank row
  generalize row.takeWhile Dialect.dented.isBlank = blanks at *
  generalize row.dropWhile Dialect.dented.isBlank = core at *
  subst hrow
  rw [content_blanks hblanks, ← Position.past_append] at hx
  cases core with
  | nil => simp at hx
  | cons c cs =>
    obtain ⟨k, text, rest, htext, rfl⟩ :=
      eq_behind_of_content hhead (fun hm => h (List.mem_append_right _ hm)) hx
    have hn : '\n' ∉ blanks := fun hm => h (List.mem_append_left _ hm)
    have hbehind : front ++ blanks ++ text ++ (rest ++ after) = source.toList := by
      rw [← hs, ← htext]
      simp
    have hbefore := Lexeme.before_behind k hbehind
    rw [Token.lead, hbefore]
    rcases hfront with rfl | hl
    · refine List.rtakeWhile_eq_self_iff.2 fun d hd => decide_eq_true ?_
      rintro rfl
      exact hn hd
    · obtain ⟨front', rfl⟩ := List.getLast?_eq_some_iff.1 hl
      rw [List.append_assoc]
      exact rtakeWhile_newline front' hn

end Row

/-! ## Lines and rows -/

/-- A line of code shows what a row holds: it has the tokens of the row with their texts, behind the
same blanks, and knows the widths of those. -/
structure Line.Shows (source : String) (l : Line) (c : Code) : Prop where
  readings : c.stretches.map Stretch.reading = l.lexemes.map fun x => some (x.reading source)
  lead : l.first.token.lead source = c.lead
  column : l.first.start.width = c.column
  width : ∀ n, l.newline? = some n → n.kind = .newline ∧ n.stop.width = c.width

section Lines

variable {source : String} {front row cs after : List Char} {l : Line} {ls : List Line}

/-- Of lines in rows that follow one another, the first one has the lexemes of the first row. -/
theorem Line.lexemes_of_row {r : Nat} {xs ys : List Lexeme}
    (heach : ∀ m ∈ l :: ls, m.LiesIn source)
    (hrows : (l :: ls).Pairwise fun m m' => m.first.token.row source < m'.first.token.row source)
    (h : (l :: ls).flatMap Line.lexemes = xs ++ ys) (hne : xs ≠ [])
    (hxs : ∀ x ∈ xs, x.token.row source = r) (hys : ∀ y ∈ ys, r < y.token.row source) :
    l.lexemes = xs ∧ ls.flatMap Line.lexemes = ys := by
  have hfirst : l.first.token.row source = r := by
    obtain ⟨x, xs, rfl⟩ := List.exists_cons_of_ne_nil hne
    obtain rfl : l.first = x := (List.cons.inj h).1
    exact hxs _ List.mem_cons_self
  have hl : ∀ x ∈ l.lexemes, x.token.row source = r := by
    intro x hx
    rw [(heach l List.mem_cons_self).row x hx, hfirst]
  have hls : ∀ y ∈ ls.flatMap Line.lexemes, r < y.token.row source := by
    intro y hy
    obtain ⟨m, hm, hy⟩ := List.mem_flatMap.1 hy
    rw [(heach m (List.mem_cons_of_mem _ hm)).row y hy, ← hfirst]
    exact (List.pairwise_cons.1 hrows).1 m hm
  rw [List.flatMap_cons] at h
  -- The lexemes in the row `r` are the same on both sides.
  have hfilter := congrArg (List.filter fun x => decide (x.token.row source = r)) h
  have hsame : ∀ {zs : List Lexeme}, (∀ z ∈ zs, z.token.row source = r) →
      zs.filter (fun x => decide (x.token.row source = r)) = zs := fun hz =>
    List.filter_eq_self.2 fun z hzm => decide_eq_true (hz z hzm)
  have hnone : ∀ {zs : List Lexeme}, (∀ z ∈ zs, r < z.token.row source) →
      zs.filter (fun x => decide (x.token.row source = r)) = [] := fun hz =>
    List.filter_eq_nil_iff.2 fun z hzm => by simpa using (hz z hzm).ne'
  rw [List.filter_append, List.filter_append, hsame hl, hsame hxs, hnone hls, hnone hys,
    List.append_nil, List.append_nil] at hfilter
  rw [hfilter] at h
  exact ⟨hfilter, List.append_cancel_left h⟩

/-- The lines that begin in a row are one that shows what the row holds, or none. -/
theorem Line.shows_row (hfront : WholeLines front) (hs : front ++ row ++ after = source.toList)
    (hn : '\n' ∉ row) (heach : ∀ m ∈ ls, m.LiesIn source)
    (hrows : ls.Pairwise fun m m' => m.first.token.row source < m'.first.token.row source)
    {xs ys : List Lexeme} (hxs : Scan.content (Position.origin.past front) row = xs.map .ok)
    (h : ls.flatMap Line.lexemes = xs ++ ys)
    (hys : ∀ y ∈ ys, front.count '\n' < y.token.row source) :
    ∃ ms ls', ls = ms ++ ls' ∧ List.Forall₂ (Shows source) ms (Code.ofRow? row).toList ∧
      ls'.flatMap Line.lexemes = ys := by
  have hread := Scan.map_reading_content front hn after
  rw [hs, String.ofList_toList, hxs, List.map_map] at hread
  cases xs with
  | nil =>
    have hsolid : Dialect.dented.solid row = [] := List.map_eq_nil_iff.1 hread.symm
    rw [Code.ofRow?_eq_none hsolid]
    exact ⟨[], ls, rfl, .nil, h⟩
  | cons x xs =>
    have hsolid : Dialect.dented.solid row ≠ [] := by
      intro e
      rw [e] at hread
      cases hread
    cases ls with
    | nil => cases h
    | cons l ls =>
      have hrow : ∀ y ∈ x :: xs, y.token.row source = front.count '\n' := by
        intro y hy
        refine (Scan.row_of_mem_content hs (x := y) ?_).2 hn
        rw [hxs]
        exact List.mem_map_of_mem hy
      obtain ⟨hlex, hrest⟩ := Line.lexemes_of_row heach hrows h (List.cons_ne_nil _ _) hrow hys
      obtain rfl : l.first = x := (List.cons.inj hlex).1
      have hlead := Scan.lead_of_content hfront hs hn hxs
      have hlies := heach l List.mem_cons_self
      rw [Code.ofRow?_eq_some hsolid]
      refine ⟨[l], ls, rfl, .cons ⟨?_, hlead, ?_, ?_⟩ .nil, hrest⟩
      · rw [← hread, hlex]
        rfl
      · rw [hlies.width, hlead]
        rfl
      · rw [← hlead]
        exact hlies.newline

/-- The lines of a text show what its rows hold. -/
theorem Line.shows_codes (hfront : WholeLines front) (hs : front ++ cs = source.toList)
    (heach : ∀ m ∈ ls, m.LiesIn source)
    (hrows : ls.Pairwise fun m m' => m.first.token.row source < m'.first.token.row source)
    (h : Scan.content (Position.origin.past front) cs = (ls.flatMap Line.lexemes).map .ok) :
    List.Forall₂ (Shows source) ls (codes cs) := by
  induction cs using rowInduction generalizing front ls with
  | last cs hcs =>
    have hs' : front ++ cs ++ [] = source.toList := by rw [List.append_nil, hs]
    obtain ⟨ms, ls', rfl, hms, hls'⟩ := shows_row hfront hs' hcs heach hrows h
      (List.append_nil _).symm (by simp)
    have hnil : ls' = [] := by
      cases ls' with
      | nil => rfl
      | cons l ls' => cases hls'
    rw [hnil, List.append_nil, codes_of_not_mem hcs]
    exact hms
  | row row br rest hrow ih =>
    have hs' : front ++ (row ++ br) ++ rest = source.toList := by rw [← hs]; simp
    have hcount : (front ++ (row ++ br)).count '\n' = front.count '\n' + 1 := by
      have hzero : row.count '\n' = 0 := List.count_eq_zero.2 hrow.not_mem
      cases hrow <;> simp [hzero]
    rw [Scan.content_row hrow, ← Position.past_append] at h
    obtain ⟨xs, ys, hls, hxs, hys⟩ := List.map_eq_append_iff.1 h.symm
    have hafter : ∀ y ∈ ys, front.count '\n' < y.token.row source := by
      intro y hy
      have hend : front ++ (row ++ br) ++ rest ++ [] = source.toList := by
        rw [List.append_nil, hs']
      have hmem : .ok y ∈ Scan.content (Position.origin.past (front ++ (row ++ br))) rest := by
        rw [← hys]
        exact List.mem_map_of_mem hy
      have hle := (Scan.row_of_mem_content hend hmem).1
      omega
    have hbehind : front ++ row ++ (br ++ rest) = source.toList := by rw [← hs]; simp
    obtain ⟨ms, ls', rfl, hms, hls'⟩ := shows_row hfront hbehind hrow.not_mem heach hrows hxs.symm
      hls hafter
    have hrest := ih (hrow.wholeLines_append front) hs'
      (fun m hm => heach m (List.mem_append_right _ hm))
      (List.pairwise_append.1 hrows).2.1 (by rw [hls', hys])
    rw [hrow.codes_append]
    exact List.rel_append hms hrest

/-- The lines that the lexemes of a text make show what its rows hold. -/
theorem Line.shows_ofText {xs : List Lexeme} (h : (Scan.ofText .dented source).items = xs.map .ok) :
    List.Forall₂ (Shows source) (Line.ofLexemes xs) (codes source.toList) := by
  have hlie := Line.lieIn_ofText h
  have hnil : WholeLines [] := .inl rfl
  refine shows_codes hnil rfl hlie.each hlie.rows ?_
  rw [Line.flatMap_lexemes_ofLexemes]
  show ((Scan.ofText .dented source).items).filter _ = _
  rw [h, List.filter_map]
  refine congrArg (List.map Except.ok) (List.filter_congr fun x _ => ?_)
  by_cases hx : x.kind = .newline <;> simp [Scan.isNewline, hx]

end Lines

/-- The indentation widths of a text are those of the blanks that its rows with code start with. -/
theorem indentWidths_eq_codes {source : String} {xs : List Lexeme}
    (h : (Scan.ofText .dented source).items = xs.map .ok) :
    indentWidths source =
      match codes source.toList with
      | [] => []
      | c :: cs => columns c.lead :: cs.map fun c => columns (c.lead.takeWhile isIndentBlank) := by
  have hshows := Line.shows_ofText h
  rw [indentWidths, lineHeads_eq h]
  generalize codes source.toList = cs at *
  generalize Line.ofLexemes xs = ls at *
  have hlead : ∀ {ls : List Line} {cs : List Code}, List.Forall₂ (Line.Shows source) ls cs →
      ls.map (fun l => l.first.token.lead source) = cs.map Code.lead := by
    intro ls cs hall
    induction hall with
    | nil => rfl
    | cons hshow _ ih => exact congrArg₂ List.cons hshow.lead ih
  cases hshows with
  | nil => rfl
  | @cons l c ls cs hshow hrest =>
    have hwidths := congrArg (List.map fun lead => columns (lead.takeWhile isIndentBlank))
      (hlead hrest)
    rw [List.map_map, List.map_map] at hwidths
    show _ :: (ls.map fun l => l.first.token).map _ = _ :: _
    rw [List.map_map]
    exact congrArg₂ List.cons (congrArg columns hshow.lead) hwidths

/-- The first of the indentation widths is the width of the blanks of the first row with code. -/
theorem head?_indentWidths {source : String} {xs : List Lexeme}
    (h : (Scan.ofText .dented source).items = xs.map .ok) :
    (indentWidths source).head? = (codes source.toList).head?.map fun c => columns c.lead := by
  rw [indentWidths_eq_codes h]
  cases codes source.toList <;> rfl

/-! ## Faults -/

/-- A fault in the content of a text stands in one of its rows. -/
theorem Scan.not_clean_of_content {front cs : List Char} {e : LexError}
    (h : .error e ∈ content (Position.origin.past front) cs) : ∃ c ∈ codes cs, ¬ c.Clean := by
  have hrow : ∀ {front row : List Char}, '\n' ∉ row →
      .error e ∈ content (Position.origin.past front) row →
      ∃ c ∈ (Code.ofRow? row).toList, ¬ c.Clean := by
    intro front row hn he
    have hread := map_reading_content front hn []
    have hmem := List.mem_map_of_mem (f := fun item : Except LexError Lexeme =>
      item.toOption.map (Lexeme.reading (String.ofList (front ++ row ++ [])))) he
    rw [hread] at hmem
    obtain ⟨s, hs, hnone⟩ := List.mem_map.1 hmem
    rw [Code.ofRow?_eq_some (List.ne_nil_of_mem hs)]
    refine ⟨_, List.mem_singleton_self _, fun hc => ?_⟩
    have hsome := hc s hs
    rw [hnone] at hsome
    cases hsome
  induction cs using rowInduction generalizing front with
  | last cs hcs =>
    rw [codes_of_not_mem hcs]
    exact hrow hcs h
  | row row br rest hr ih =>
    rw [content_row hr, ← Position.past_append, List.mem_append] at h
    rw [hr.codes_append]
    rcases h with h | h
    · obtain ⟨c, hc, hclean⟩ := hrow hr.not_mem h
      exact ⟨c, List.mem_append_left _ hc, hclean⟩
    · obtain ⟨c, hc, hclean⟩ := ih h
      exact ⟨c, List.mem_append_right _ hc, hclean⟩

/-- A text whose rows have no faults has none. -/
theorem Scan.exists_map_ok_of_clean {source : String} (h : ∀ c ∈ codes source.toList, c.Clean) :
    ∃ xs : List Lexeme, (Scan.ofText .dented source).items = xs.map .ok := by
  refine exists_eq_map_ok fun e he => ?_
  have hmem : .error e ∈ content (Position.origin.past []) source.toList :=
    List.mem_filter.2 ⟨he, rfl⟩
  obtain ⟨c, hc, hclean⟩ := not_clean_of_content hmem
  exact hclean (h c hc)

/-- What a line without faults shows has none. -/
theorem Line.Shows.clean {source : String} {l : Line} {c : Code} (h : l.Shows source c) :
    c.Clean := by
  intro s hs
  have hmem := List.mem_map_of_mem (f := Stretch.reading) hs
  rw [h.readings] at hmem
  obtain ⟨x, -, hx⟩ := List.mem_map.1 hmem
  rw [← hx]
  rfl

/-- The rows of a text without faults have none. -/
theorem Line.clean_of_shows {source : String} {ls : List Line} {cs : List Code}
    (h : List.Forall₂ (Line.Shows source) ls cs) : ∀ c ∈ cs, c.Clean := by
  induction h with
  | nil => simp
  | cons hshow _ ih =>
    intro c hc
    rcases List.mem_cons.1 hc with rfl | hc
    · exact hshow.clean
    · exact ih c hc

/-- The tokens of a line are those that the row holds. -/
theorem Line.Shows.tokens {source : String} {l : Line} {c : Code} (h : l.Shows source c) :
    c.tokens = l.lexemes.map (Lexeme.reading source) := by
  have hmap : c.tokens = (c.stretches.map Stretch.reading).filterMap id := by
    rw [List.filterMap_map]
    rfl
  rw [hmap, h.readings, List.filterMap_map]
  exact congrFun (List.filterMap_eq_map (f := Lexeme.reading source)) l.lexemes

end OffsideBench

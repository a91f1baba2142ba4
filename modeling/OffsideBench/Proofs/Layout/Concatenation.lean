import Mathlib.Algebra.Group.Nat.Defs
import OffsideBench.Proofs.Layout.Sketch

/-!
# Concatenation

Behind whole lines a text is read as if it stood alone: its first row with code starts at the first
column, so it closes all blocks that are open at the seam, and line breaks that meet there count as
one.

The first row of a text and a later one are not measured alike, though. In front of the first one,
all characters count; in front of a later one, only the spaces and tabs that it starts with. Both
agree that a row is at the first column unless the width of the first row wraps around, so a text
that starts with such a row may open a block behind other lines.

Main statements: `Layout.sketchText_append` and `Layout.width_of_sketchText_append`, when the
recursion over rows goes through the seam; and from them `Layout.whole_lines_concatenate`.
-/

namespace OffsideBench

open Token (Kind)

/-- A token of a text that stands behind `n` further bytes. -/
def Token.shift (n : Nat) (t : Token) : Token := ⟨t.kind, n + t.start, n + t.stop⟩

/-! ## Content behind a text -/

/-- What stands in front of a text moves the tokens of its content. -/
theorem Scan.content_shift {p q : Position} {n : Nat} (h : p.offset = n + q.offset)
    (cs : List Char) :
    (content p cs).map (fun item => item.toOption.map Lexeme.token) =
      (content q cs).map fun item => item.toOption.map fun x => x.token.shift n := by
  fun_induction Dialect.dented.stretches cs generalizing p q with
  | case1 => simp
  | case2 c cs ih =>
    have hstop : (p.past (Dialect.dented.piece c cs).text).offset =
        n + (q.past (Dialect.dented.piece c cs).text).offset := by
      rw [Position.past_offset, Position.past_offset, h, Nat.add_assoc]
    rw [content_cons, content_cons, List.map_append, List.map_append, ih hstop]
    refine congrArg (· ++ _) ?_
    cases (Dialect.dented.piece c cs).role with
    | gap => rfl
    | fault => rfl
    | token k =>
      by_cases hk : k = .newline
      · subst hk
        rfl
      · simp [item?, isNewline, hk, Except.toOption, Lexeme.token, Token.shift, h, hstop]

/-- The content tokens of a stream with structure are those of the text. -/
theorem Variant.content_dented {source : String} {t : Token}
    (h : (dented.drain source).finish = .ok t) :
    ((dented.drain source).tokens.filter (·.kind.isContent)).map some =
      (Scan.content .origin source.toList).map fun item => item.toOption.map Lexeme.token := by
  obtain ⟨-, xs, hxs, hcontent⟩ := Layout.content_of_drain h
  have hkind : ∀ x ∈ xs, x.kind.isContent = !Scan.isNewline (.ok x) := by
    intro x hx
    rcases Scan.kind_of_items hxs x hx with hk | hk
    · have hne : x.kind ≠ .newline := Kind.ne_of_isContent hk rfl
      simp [Scan.isNewline, hk, hne]
    · simp only [Scan.isNewline, hk]
      rfl
  rw [hcontent, List.filter_map, List.map_map]
  show _ = ((Scan.ofText .dented source).items.filter _).map _
  rw [hxs, List.filter_map, List.map_map]
  exact congrArg (List.map fun x => some x.token) (List.filter_congr hkind)

namespace Layout

/-! ## The recursion over rows -/

section Sketch

variable {widths widths' : List UInt32} {width : UInt32} {ks : List Kind} {c : Code}
  {cs cs' : List Code} {rs rs' : List (Kind × Option String)}

theorem closeTo_suffix (width : UInt32) (ws : List UInt32) : closeTo width ws <:+ ws := by
  fun_induction closeTo width ws with
  | case1 => exact List.suffix_rfl
  | case2 w ws _ ih => exact ih.trans (List.suffix_cons w ws)
  | case3 => exact List.suffix_rfl

/-- Open blocks are wider than the first column. -/
theorem pos_of_marks (h : marks widths width = some (ks, widths')) (hw : ∀ w ∈ widths, 0 < w) :
    ∀ w ∈ widths', 0 < w := by
  intro w hm
  rcases marks_cases h with ⟨hlt, -, rfl⟩ | ⟨-, -, rfl, -⟩
  · rcases List.mem_cons.1 hm with rfl | hm
    · exact UInt32.lt_of_le_of_lt UInt32.zero_le hlt
    · exact hw w hm
  · exact hw w ((closeTo_suffix width widths).mem hm)

/-- A row that closes all blocks, to judge by the marks and the content handed out, is at the first
column. -/
theorem width_of_marks (h : marks widths width = some (ks, widths')) {k : Kind}
    (hk : k.isContent = true) {as bs : List Kind}
    (heq : ks ++ k :: as = .newline :: (List.replicate widths.length .dedent ++ k :: bs)) :
    width = 0 := by
  rcases marks_cases h with ⟨-, rfl, -⟩ | ⟨-, rfl, hclose, hwidth⟩
  · cases (List.cons.inj heq).1
  · cases widths' with
    | nil => exact hwidth
    | cons w ws =>
      have hle : (w :: ws).length ≤ widths.length := by
        rw [hclose]
        exact (closeTo_suffix width widths).length_le
      have hsplit : widths.length = widths.length - (w :: ws).length + (ws.length + 1) := by
        rw [List.length_cons] at hle ⊢
        omega
      generalize widths.length - (w :: ws).length = n at heq hsplit
      rw [hsplit, ← List.replicate_append_replicate, List.append_assoc, List.cons_append,
        List.cons_inj_right, List.append_cancel_left_eq, List.replicate_succ] at heq
      rw [(List.cons.inj heq).1] at hk
      cases hk

theorem map_append_append {α : Type} (as bs : List α) (o : Option (List α)) :
    (o.map (bs ++ ·)).map (as ++ ·) = o.map (as ++ bs ++ ·) := by
  rw [Option.map_map]
  exact congrArg (Option.map · o) (funext fun cs => (List.append_assoc as bs cs).symm)

/-- Rows that are all in their places leave blocks open, and what stands behind them goes on from
there. -/
theorem exists_sketch_append (hw : ∀ w ∈ widths, 0 < w) (h : sketch widths cs = some rs) :
    ∃ front left, (∀ w ∈ left, 0 < w) ∧
      ∀ cs', sketch widths (cs ++ cs') = (sketch left cs').map (front ++ ·) := by
  induction cs generalizing widths rs with
  | nil =>
    refine ⟨[], widths, hw, ?_⟩
    intro cs'
    exact Option.map_id'.symm
  | cons c cs ih =>
    cases hmarks : marks widths c.width with
    | none =>
      rw [sketch, hmarks] at h
      cases h
    | some o =>
      obtain ⟨ks, widths'⟩ := o
      rw [sketch_cons_of_marks hmarks rfl] at h
      obtain ⟨rs, hrest, -⟩ := Option.map_eq_some_iff.1 h
      obtain ⟨front, left, hleft, happend⟩ := ih (pos_of_marks hmarks hw) hrest
      refine ⟨ks.map (·, none) ++ c.tokens ++ front, left, hleft, ?_⟩
      intro cs'
      rw [List.cons_append, sketch_cons_of_marks hmarks rfl, happend, map_append_append]

/-- The rows of a text end with a line break and the closings of what they leave open, and what
stands behind them goes on in place of those. -/
theorem exists_sketchText_append (h : sketchText cs = some rs) (hne : cs ≠ []) :
    ∃ front left, (∀ w ∈ left, 0 < w) ∧
      rs = front ++ (.newline, none) :: List.replicate left.length (.dedent, none) ∧
      ∀ cs', sketchText (cs ++ cs') = (sketch left cs').map (front ++ ·) := by
  obtain ⟨c, cs, rfl⟩ := List.exists_cons_of_ne_nil hne
  by_cases hcol : 0 < c.column
  · rw [sketchText, if_pos hcol] at h
    cases h
  · have hcons : ∀ cs', sketchText (c :: cs') = (sketch [] cs').map (c.tokens ++ ·) := by
      intro cs'
      rw [sketchText, if_neg hcol]
    rw [hcons] at h
    obtain ⟨rs, hrest, rfl⟩ := Option.map_eq_some_iff.1 h
    obtain ⟨front, left, hleft, happend⟩ := exists_sketch_append (by simp) hrest
    have hend := happend []
    rw [List.append_nil, hrest] at hend
    refine ⟨c.tokens ++ front, left, hleft, ?_, ?_⟩
    · rw [Option.some.inj hend, List.append_assoc]
    · intro cs'
      rw [List.cons_append, hcons, happend, map_append_append]

/-- The first row of a text that is read to its end starts at the first column. -/
theorem column_of_sketchText (h : sketchText cs = some rs) : ∀ c ∈ cs.head?, c.column = 0 := by
  cases cs with
  | nil => simp
  | cons c cs =>
    rintro _ ⟨⟩
    by_cases hcol : 0 < c.column
    · rw [sketchText, if_pos hcol] at h
      cases h
    · exact UInt32.le_zero_iff.1 (UInt32.not_lt.1 hcol)

/-- Behind other rows, a text goes on as if it stood alone when its first row is at the first column
for a later row as well. -/
theorem sketchText_append (h : sketchText cs = some rs)
    (hseam : cs ≠ [] → ∀ c ∈ cs'.head?, c.width = 0) (h' : sketchText cs' = some rs') :
    sketchText (cs ++ cs') = some (rs ++ rs') := by
  by_cases hne : cs = []
  · subst hne
    cases h
    exact h'
  · obtain ⟨front, left, hleft, rfl, happend⟩ := exists_sketchText_append h hne
    have hc : ∀ c ∈ cs'.head?, c.column = 0 ∧ c.width = 0 := fun c hm =>
      ⟨column_of_sketchText h' c hm, hseam hne c hm⟩
    rw [happend, sketch_of_first_column hleft hc, h', List.append_assoc]
    rfl

/-- Only then: behind other rows, a first row that is wider for a later row opens a block or leaves
one open, where the text alone opens none. -/
theorem width_of_sketchText_append (h : sketchText cs = some rs) (hne : cs ≠ [])
    (h' : sketchText (c :: cs') = some rs') (hc : ∃ r ∈ c.tokens.head?, r.1.isContent = true)
    {rs'' : List (Kind × Option String)} (happend : sketchText (cs ++ c :: cs') = some rs'')
    (hkinds : rs''.map Prod.fst = rs.map Prod.fst ++ rs'.map Prod.fst) : c.width = 0 := by
  obtain ⟨front, left, -, rfl, hgo⟩ := exists_sketchText_append h hne
  obtain ⟨r, hr, hcontent⟩ := hc
  obtain ⟨ts, hts⟩ := List.head?_eq_some_iff.1 hr
  rw [hgo] at happend
  obtain ⟨behind, hbehind, rfl⟩ := Option.map_eq_some_iff.1 happend
  rw [sketchText] at h'
  split at h'
  · cases h'
  obtain ⟨alone, -, rfl⟩ := Option.map_eq_some_iff.1 h'
  cases hmarks : marks left c.width with
  | none =>
    rw [sketch, hmarks] at hbehind
    cases hbehind
  | some o =>
    obtain ⟨ks, left'⟩ := o
    rw [sketch_cons_of_marks hmarks rfl] at hbehind
    obtain ⟨rest, -, rfl⟩ := Option.map_eq_some_iff.1 hbehind
    rw [hts] at hkinds
    simp only [List.map_append, List.map_cons, List.map_map, List.map_replicate,
      List.append_assoc, List.append_cancel_left_eq, List.cons_append] at hkinds
    have hks : ks.map (Prod.fst ∘ fun k => (k, (none : Option String))) = ks := List.map_id' ks
    rw [hks] at hkinds
    exact width_of_marks hmarks hcontent hkinds

/-- A first row of which the width does not wrap around has no blanks in front of its code. -/
theorem first_column_of_sketchText (h : sketchText (c :: cs) = some rs)
    (hw : columns c.lead < UInt32.size) : c.column = 0 ∧ c.width = 0 := by
  rw [sketchText] at h
  split at h
  · cases h
  · rename_i hcol
    have hzero : (lineWidth c.lead).toNat = 0 := by
      by_contra hne
      exact hcol (UInt32.lt_iff_toNat_lt.2 (Nat.pos_of_ne_zero hne))
    rw [toNat_lineWidth hw] at hzero
    have hlead : c.lead = [] := by
      rcases List.eq_nil_or_concat' c.lead with hnil | ⟨bs, b, hb⟩
      · exact hnil
      · have hlt := columns_lt_concat bs b
        rw [← hb, hzero] at hlt
        exact absurd hlt (Nat.not_lt_zero _)
    rw [Code.column, Code.width, hlead]
    exact ⟨rfl, rfl⟩

end Sketch

/-! ## Texts -/

/-- Whatever its lines, an outline that has no fault ends with the end of the text. -/
theorem finish_outline {finish : Position} {widths : List UInt32} {ls : List Line} {t : Token}
    (h : (outline finish widths ls).finish = .ok t) : t = (Lexeme.eof finish).token := by
  induction ls generalizing widths with
  | nil => exact (Except.ok.inj h).symm
  | cons l ls ih =>
    obtain ⟨_ | n, x, xs⟩ := l
    · exact ih h
    · rw [outline_newline] at h
      split at h
      · cases h
      · exact ih h

/-- A stream with structure that is drained without a fault ends behind its text. -/
theorem finish_of_drain {source : String} {t : Token}
    (h : (Variant.dented.drain source).finish = .ok t) :
    t = Token.empty .eof source.utf8ByteSize := by
  obtain ⟨-, xs, hxs, -⟩ := content_of_drain h
  have ht : t = (Lexeme.eof (Scan.ofText .dented source).finish).token := by
    rw [Variant.drain_dented hxs] at h
    cases hls : Line.ofLexemes xs with
    | nil =>
      rw [hls] at h
      exact (Except.ok.inj h).symm
    | cons l ls =>
      rw [hls, outlineText] at h
      split at h
      · cases h
      · exact finish_outline h
  rw [ht, Scan.eof_ofText]

/-- The first row with code of a text behind other code is at the first column for a later row,
which is measured by its blanks alone. -/
def IsFlush (s₁ s₂ : String) : Prop :=
  codes s₁.toList ≠ [] → ∀ c ∈ (codes s₂.toList).head?, c.width = 0

/-- A text of which the first width does not wrap around is flush. -/
theorem isFlush_of_width {s₁ s₂ : String} {t₂ : Token}
    (h₂ : (Variant.dented.drain s₂).finish = .ok t₂)
    (hwidth : ∀ w ∈ (indentWidths s₂).head?, w < UInt32.size) : IsFlush s₁ s₂ := by
  intro _ c hc
  obtain ⟨-, xs, hxs, -⟩ := content_of_drain h₂
  rw [head?_indentWidths hxs, hc] at hwidth
  obtain ⟨cs, hcs⟩ := List.head?_eq_some_iff.1 hc
  have hsketch := (Variant.readings_dented_iff.1 (Drain.readings_of_finish s₂ h₂)).2
  rw [hcs] at hsketch
  exact (first_column_of_sketchText hsketch (hwidth _ rfl)).2

/-- The stream of a text behind whole lines says what the two streams say one after the other. -/
theorem readings_append {s₁ s₂ : String} {rs₁ rs₂ : List (Kind × Option String)}
    (h₁ : (Variant.dented.drain s₁).readings s₁ = some rs₁)
    (h₂ : (Variant.dented.drain s₂).readings s₂ = some rs₂) (hs₁ : WholeLines s₁.toList)
    (hflush : IsFlush s₁ s₂) :
    (Variant.dented.drain (s₁ ++ s₂)).readings (s₁ ++ s₂) = some (rs₁ ++ rs₂) := by
  obtain ⟨hclean₁, hsketch₁⟩ := Variant.readings_dented_iff.1 h₁
  obtain ⟨hclean₂, hsketch₂⟩ := Variant.readings_dented_iff.1 h₂
  refine Variant.readings_dented_iff.2 ⟨?_, ?_⟩
  · rw [String.toList_append, hs₁.codes_append]
    exact List.forall_mem_append.2 ⟨hclean₁, hclean₂⟩
  · rw [String.toList_append, hs₁.codes_append]
    exact sketchText_append hsketch₁ hflush hsketch₂

/-- The first token of a row is content. -/
theorem exists_content_of_codes {source : String} {t : Token} {c : Code} {cs : List Code}
    (h : (Variant.dented.drain source).finish = .ok t) (hc : codes source.toList = c :: cs) :
    ∃ r ∈ c.tokens.head?, r.1.isContent = true := by
  obtain ⟨-, xs, hxs, -⟩ := content_of_drain h
  have hshows := Line.shows_ofText hxs
  rw [hc] at hshows
  obtain ⟨l, ls, hshow, -, hls⟩ := List.forall₂_cons_right_iff.1 hshows
  have hline : IsLine l.tokens := Line.isLine_of_mem hxs l (hls ▸ List.mem_cons_self)
  rw [hshow.tokens]
  exact ⟨l.first.reading source, rfl, hline.2 l.first.token List.mem_cons_self⟩

/-- The kinds of both texts come one after the other only when the second one is flush. -/
theorem isFlush_of_kinds {s₁ s₂ : String} {t₁ t₂ t : Token}
    (h₁ : (Variant.dented.drain s₁).finish = .ok t₁)
    (h₂ : (Variant.dented.drain s₂).finish = .ok t₂) (hs₁ : WholeLines s₁.toList)
    (h : (Variant.dented.drain (s₁ ++ s₂)).finish = .ok t)
    (hkinds : (Variant.dented.drain (s₁ ++ s₂)).kinds =
      (Variant.dented.drain s₁).kinds ++ (Variant.dented.drain s₂).kinds) : IsFlush s₁ s₂ := by
  intro hne c hc
  obtain ⟨cs, hcs⟩ := List.head?_eq_some_iff.1 hc
  have hr₁ := Drain.readings_of_finish s₁ h₁
  have hr₂ := Drain.readings_of_finish s₂ h₂
  have hr := Drain.readings_of_finish (s₁ ++ s₂) h
  rw [Variant.kinds_of_readings hr, Variant.kinds_of_readings hr₁,
    Variant.kinds_of_readings hr₂] at hkinds
  have hsketch := (Variant.readings_dented_iff.1 hr).2
  rw [String.toList_append, hs₁.codes_append, hcs] at hsketch
  exact width_of_sketchText_append (Variant.readings_dented_iff.1 hr₁).2 hne
    (hcs ▸ (Variant.readings_dented_iff.1 hr₂).2) (exists_content_of_codes h₂ hcs) hsketch hkinds

/-- The content tokens of a text behind whole lines are moved by the length of those. -/
theorem filter_isContent_append {s₁ s₂ : String} {t₁ t₂ t : Token}
    (h₁ : (Variant.dented.drain s₁).finish = .ok t₁)
    (h₂ : (Variant.dented.drain s₂).finish = .ok t₂)
    (h : (Variant.dented.drain (s₁ ++ s₂)).finish = .ok t) (hs₁ : WholeLines s₁.toList) :
    (Variant.dented.drain (s₁ ++ s₂)).tokens.filter (·.kind.isContent) =
      (Variant.dented.drain s₁).tokens.filter (·.kind.isContent) ++
        ((Variant.dented.drain s₂).tokens.filter (·.kind.isContent)).map
          (Token.shift s₁.utf8ByteSize) := by
  have hoffset : (Position.origin.past s₁.toList).offset =
      s₁.utf8ByteSize + Position.origin.offset := by
    rw [Position.origin_past_offset, String.ofList_toList]
    rfl
  refine List.map_injective_iff.2 (Option.some_injective Token) ?_
  rw [List.map_append, Variant.content_dented h, Variant.content_dented h₁, String.toList_append,
    Scan.content_append hs₁, List.map_append, Scan.content_shift hoffset]
  refine congrArg (_ ++ ·) ?_
  have hmoved := congrArg (List.map (Option.map (Token.shift s₁.utf8ByteSize)))
    (Variant.content_dented h₂)
  rw [List.map_map, List.map_map] at hmoved
  rw [List.map_map]
  refine Eq.trans ?_ hmoved.symm
  refine List.map_congr_left ?_
  rintro (e | x) - <;> rfl

/-- The text made of two texts is read as one after the other. -/
structure Concatenates (s₁ s₂ : String) : Prop where
  /-- It is drained to its end. -/
  finish : (Variant.dented.drain (s₁ ++ s₂)).finish = .ok (.empty .eof (s₁ ++ s₂).utf8ByteSize)
  /-- Its kinds are those of the first text and then those of the second. -/
  kinds : (Variant.dented.drain (s₁ ++ s₂)).kinds =
    (Variant.dented.drain s₁).kinds ++ (Variant.dented.drain s₂).kinds
  /-- So are its content tokens, those of the second text moved by the length of the first. -/
  content : (Variant.dented.drain (s₁ ++ s₂)).tokens.filter (·.kind.isContent) =
    (Variant.dented.drain s₁).tokens.filter (·.kind.isContent) ++
      ((Variant.dented.drain s₂).tokens.filter (·.kind.isContent)).map
        (Token.shift s₁.utf8ByteSize)
  /-- Its braced text is made of the two braced texts. -/
  prepared : ∃ p₁ p₂, Variant.braced.prepare s₁ = .ok p₁ ∧ Variant.braced.prepare s₂ = .ok p₂ ∧
    Variant.braced.prepare (s₁ ++ s₂) = .ok (p₁ ++ p₂)

/-- Flush texts concatenate. -/
theorem Concatenates.of_isFlush {s₁ s₂ : String} {t₁ t₂ : Token}
    (h₁ : (Variant.dented.drain s₁).finish = .ok t₁)
    (h₂ : (Variant.dented.drain s₂).finish = .ok t₂) (hs₁ : WholeLines s₁.toList)
    (hflush : IsFlush s₁ s₂) : Concatenates s₁ s₂ := by
  have hr₁ := Drain.readings_of_finish s₁ h₁
  have hr₂ := Drain.readings_of_finish s₂ h₂
  have hr := readings_append hr₁ hr₂ hs₁ hflush
  obtain ⟨⟨t, ht⟩, -⟩ := Drain.readings_eq_some.1 hr
  refine ⟨?_, ?_, filter_isContent_append h₁ h₂ ht hs₁, _, _,
    Variant.prepare_braced_of_readings hr₁, Variant.prepare_braced_of_readings hr₂, ?_⟩
  · rw [ht, finish_of_drain ht]
  · rw [Variant.kinds_of_readings hr, Variant.kinds_of_readings hr₁,
      Variant.kinds_of_readings hr₂, List.map_append]
  · rw [Variant.prepare_braced_of_readings hr, List.map_append, String.join_append]

/-- A name behind tabs, a form feed and one more tab. The form feed ends the blanks by which a later
row is measured; the first row of a text is measured beyond it, up to the next tab stop. -/
theorem exists_codes_tabs_formFeed (n : Nat) :
    ∃ c, codes (List.replicate n '\t' ++ ['\x0c', '\t', 'y']) = [c] ∧ c.Clean ∧
      c.tokens = [(.ident, some "y")] ∧ c.width = .ofNat (8 * n) ∧
      c.column = .ofNat (8 * (n + 1)) := by
  have hb : ∀ c ∈ List.replicate n '\t', isIndentBlank c = true := by
    intro c hc
    rw [List.eq_of_mem_replicate hc]
    rfl
  have hrow : Code.ofRow? ['\x0c', '\t', 'y'] =
      some ⟨['\x0c', '\t'], [⟨.token .ident, ['y']⟩]⟩ := by decide +kernel
  refine ⟨⟨List.replicate n '\t' ++ ['\x0c', '\t'], [⟨.token .ident, ['y']⟩]⟩, ?_, ?_, rfl, ?_, ?_⟩
  · rw [codes_blanks_row hb (by decide), hrow]
    rfl
  · intro s hs
    rw [List.mem_singleton.1 hs]
    rfl
  · have hlead : (List.replicate n '\t' ++ ['\x0c', '\t']).takeWhile isIndentBlank =
        List.replicate n '\t' := (List.takeWhile_append_of_pos hb).trans (List.append_nil _)
    rw [Code.width, hlead, lineWidth_eq_ofNat, columns_tabs]
  · have hcolumns : columns (List.replicate n '\t' ++ ['\x0c', '\t']) =
        (8 * n + 1) / 8 * 8 + 8 := by
      rw [List.append_cons, columns_concat, if_pos rfl, columns_concat, if_neg (by decide),
        columns_tabs, Nat.add_mul]
      rfl
    have hstop : (8 * n + 1) / 8 * 8 + 8 = 8 * (n + 1) := by omega
    rw [Code.column, lineWidth_eq_ofNat, hcolumns, hstop]

/-- **Whole lines concatenate.** Two texts are drained to their ends, and the first one is empty or
ends in a line feed. Then the text made of both is read as one after the other just when the second
text is flush. It is so whenever the width of its first line of code does not wrap around. -/
theorem whole_lines_concatenate {s₁ s₂ : String} {t₁ t₂ : Token}
    (h₁ : (Variant.dented.drain s₁).finish = .ok t₁)
    (h₂ : (Variant.dented.drain s₂).finish = .ok t₂)
    (hs₁ : s₁ = "" ∨ s₁.toList.getLast? = some '\n') :
    (Concatenates s₁ s₂ ↔ IsFlush s₁ s₂) ∧
    ((∀ w ∈ (indentWidths s₂).head?, w < UInt32.size) → Concatenates s₁ s₂) := by
  have hwhole : WholeLines s₁.toList := by
    rcases hs₁ with rfl | hs₁
    · exact .inl rfl
    · exact .inr hs₁
  refine ⟨⟨?_, .of_isFlush h₁ h₂ hwhole⟩, ?_⟩
  · intro h
    exact isFlush_of_kinds h₁ h₂ hwhole h.finish h.kinds
  · intro hwidth
    exact .of_isFlush h₁ h₂ hwhole (isFlush_of_width h₂ hwidth)

/-- The statement of `Layout.whole_lines_concatenate` for a text that leaves two blocks open, and
one that starts with an indented comment and a blank line. -/
theorem whole_lines_concatenate_open_blocks :
    Concatenates "if a:\n  if b:\n    c\n\n" "  # d\n\t\ne = \"f\"" ∧
      IsFlush "if a:\n  if b:\n    c\n\n" "  # d\n\t\ne = \"f\"" := by
  have h₁ : (Variant.dented.drain "if a:\n  if b:\n    c\n\n").finish = .ok ⟨.eof, 21, 21⟩ := by
    decide +kernel
  have h₂ : (Variant.dented.drain "  # d\n\t\ne = \"f\"").finish = .ok ⟨.eof, 15, 15⟩ := by
    decide +kernel
  have hwidths : indentWidths "  # d\n\t\ne = \"f\"" = [0] := by decide +kernel
  obtain ⟨hiff, hnarrow⟩ := whole_lines_concatenate h₁ h₂ (.inr (by decide +kernel))
  have hconcatenates := hnarrow (by rw [hwidths]; decide)
  exact ⟨hconcatenates, hiff.1 hconcatenates⟩

/-- A text whose first line of code wraps around to the first column stands alone, and opens a block
behind another line: without the form feed and what follows it, its blanks do not wrap around. -/
theorem wrapped_first_line_is_not_concatenated :
    let s₁ := "x\n"
    let s₂ := String.ofList (List.replicate (2 ^ 29 - 1) '\t') ++ "\x0c\ty"
    s₁.toList.getLast? = some '\n' ∧
    (∃ t, (Variant.dented.drain s₁).finish = .ok t) ∧
    (∃ t, (Variant.dented.drain s₂).finish = .ok t) ∧
    (Variant.dented.drain s₁).kinds = [.ident, .newline] ∧
    (Variant.dented.drain s₂).kinds = [.ident, .newline] ∧
    (Variant.dented.drain (s₁ ++ s₂)).kinds = [.ident, .indent, .ident, .newline, .dedent] ∧
    ¬ Concatenates s₁ s₂ := by
  intro s₁ s₂
  obtain ⟨c, hc, hclean, htokens, hwidth, hcolumn⟩ := exists_codes_tabs_formFeed (2 ^ 29 - 1)
  have hwhole : WholeLines s₁.toList := .inr (by decide)
  have hcodes₁ : codes s₁.toList = [⟨[], [⟨.token .ident, ['x']⟩]⟩] := by decide +kernel
  have hcodes₂ : codes s₂.toList = [c] := by
    rw [String.toList_append, String.toList_ofList]
    exact hc
  have hfirst : c.column = 0 := hcolumn.trans (by decide)
  have hmarks : marks [] c.width = some ([.indent], [c.width]) :=
    if_pos (show 0 < c.width by rw [hwidth]; decide)
  have h₁ : (Variant.dented.drain s₁).readings s₁ =
      some [(.ident, some "x"), (.newline, none)] := by decide +kernel
  have h₂ : (Variant.dented.drain s₂).readings s₂ =
      some [(.ident, some "y"), (.newline, none)] := by
    rw [Variant.readings_dented_iff, hcodes₂, List.forall_mem_singleton]
    refine ⟨hclean, ?_⟩
    rw [sketchText, hfirst, if_neg (by decide), htokens]
    rfl
  have h : (Variant.dented.drain (s₁ ++ s₂)).readings (s₁ ++ s₂) =
      some [(.ident, some "x"), (.indent, none), (.ident, some "y"), (.newline, none),
        (.dedent, none)] := by
    rw [Variant.readings_dented_iff, String.toList_append, hwhole.codes_append, hcodes₂,
      List.forall_mem_append, List.forall_mem_singleton]
    refine ⟨⟨(Variant.readings_dented_iff.1 h₁).1, hclean⟩, ?_⟩
    rw [hcodes₁, List.singleton_append, sketchText, if_neg (by decide),
      sketch_cons_of_marks hmarks rfl, htokens]
    rfl
  have hkinds₁ := Variant.kinds_of_readings h₁
  have hkinds₂ := Variant.kinds_of_readings h₂
  have hkinds := Variant.kinds_of_readings h
  refine ⟨by decide, (Drain.readings_eq_some.1 h₁).1, (Drain.readings_eq_some.1 h₂).1, hkinds₁,
    hkinds₂, hkinds, ?_⟩
  intro hall
  have hboth := hall.kinds
  rw [hkinds, hkinds₁, hkinds₂] at hboth
  cases hboth

end Layout

end OffsideBench

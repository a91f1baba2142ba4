import OffsideBench.Proofs.CodeRows
import OffsideBench.Proofs.Layout.Widths

/-!
# What the stream with structure says

Apart from the places of its tokens, the stream with structure says which kinds come in which order
and which texts the content tokens have. All of that follows from what the rows of the text hold:
`Layout.sketchText` is the recursion over rows that the layout machine amounts to.

Main statements: `Variant.readings_dented_iff`, a text is drained to its end exactly when its rows
have no faults and no row lacks its place, and the stream then says what the recursion gives; and
`Variant.prepare_braced_of_readings`, the braced text is made of what the stream says.
-/

namespace OffsideBench

open Token (Kind)

/-- What a token says, wherever it stands: its kind, and its text if it is content. -/
def Token.reading (source : String) (t : Token) : Kind × Option String :=
  (t.kind, if t.kind.isContent then t.text? source else none)

theorem Lexeme.reading_token {source : String} {x : Lexeme} (h : x.kind.isContent = true) :
    x.token.reading source = x.reading source := by
  have hk : x.token.kind.isContent = true := h
  rw [Token.reading, if_pos hk]
  rfl

/-- What is said by a stream that is drained without a fault. -/
def Drain.readings (source : String) (d : Drain) : Option (List (Kind × Option String)) :=
  d.finish.toOption.map fun _ => d.tokens.map (Token.reading source)

theorem Drain.readings_behind (source : String) (ts : List Token) (d : Drain) :
    (d.behind ts).readings source =
      (d.readings source).map (ts.map (Token.reading source) ++ ·) := by
  rw [readings, readings, behind, Option.map_map]
  refine congrArg (Option.map · d.finish.toOption) (funext fun _ => ?_)
  exact List.map_append

/-- What a stream says when it is drained to its end. -/
theorem Drain.readings_eq_some {source : String} {d : Drain}
    {rs : List (Kind × Option String)} :
    d.readings source = some rs ↔
      (∃ t, d.finish = .ok t) ∧ d.tokens.map (Token.reading source) = rs := by
  rw [readings, Option.map_eq_some_iff]
  cases d.finish with
  | error e => simp [Except.toOption]
  | ok t => simp [Except.toOption]

/-- A stream that is drained to its end says something. -/
theorem Drain.readings_of_finish (source : String) {d : Drain} {t : Token}
    (h : d.finish = .ok t) : d.readings source = some (d.tokens.map (Token.reading source)) :=
  readings_eq_some.2 ⟨⟨t, h⟩, rfl⟩

namespace Layout

/-! ## The recursion over rows -/

/-- The kinds that are handed out in front of a line of the given width when blocks of the widths
`widths` are open, and the widths that are open on it. -/
def marks (widths : List UInt32) (width : UInt32) : Option (List Kind × List UInt32) :=
  if widths.headD 0 < width then
    some ([.indent], width :: widths)
  else
    let left := closeTo width widths
    if width = left.headD 0 then
      some (.newline :: List.replicate (widths.length - left.length) .dedent, left)
    else
      none

/-- What is said by rows of code behind a row on which blocks of the given widths are open. -/
def sketch : List UInt32 → List Code → Option (List (Kind × Option String))
  | widths, [] => some ((.newline, none) :: List.replicate widths.length (.dedent, none))
  | widths, c :: cs =>
    match marks widths c.width with
    | none => none
    | some (ks, widths') => (sketch widths' cs).map (ks.map (·, none) ++ c.tokens ++ ·)

/-- What is said by all rows of code of a text. -/
def sketchText : List Code → Option (List (Kind × Option String))
  | [] => some []
  | c :: cs => if 0 < c.column then none else (sketch [] cs).map (c.tokens ++ ·)

section Marks

variable {widths widths' : List UInt32} {width : UInt32} {ks : List Kind}

/-- The marks of a line are the kinds of its turn. -/
theorem marks_eq_turn (widths : List UInt32) {n : Lexeme} (hn : n.kind = .newline) :
    marks widths n.stop.width =
      (turn widths n).toOption.map fun o => (o.1.map Token.kind, o.2) := by
  have hk : n.token.kind = .newline := hn
  unfold marks turn
  simp only
  by_cases hlt : widths.headD 0 < n.stop.width
  · rw [if_pos hlt, if_pos hlt]
    rfl
  · rw [if_neg hlt, if_neg hlt]
    by_cases he : n.stop.width = (closeTo n.stop.width widths).headD 0
    · rw [if_pos he, if_pos he]
      simp [Except.toOption, hk, Token.empty]
    · rw [if_neg he, if_neg he]
      rfl

/-- A line opens one block, or closes some and has its place in the innermost one left. -/
theorem marks_cases (h : marks widths width = some (ks, widths')) :
    (widths.headD 0 < width ∧ ks = [.indent] ∧ widths' = width :: widths) ∨
      (¬ widths.headD 0 < width ∧
        ks = .newline :: List.replicate (widths.length - widths'.length) .dedent ∧
        widths' = closeTo width widths ∧ width = widths'.headD 0) := by
  unfold marks at h
  simp only at h
  split at h
  · rename_i hlt
    cases h
    exact .inl ⟨hlt, rfl, rfl⟩
  · rename_i hlt
    split at h
    · rename_i he
      cases h
      exact .inr ⟨hlt, rfl, rfl, he⟩
    · cases h

theorem sketch_cons_of_marks (h : marks widths width = some (ks, widths')) {c : Code}
    (hc : c.width = width) (cs : List Code) :
    sketch widths (c :: cs) = (sketch widths' cs).map (ks.map (·, none) ++ c.tokens ++ ·) := by
  rw [sketch, hc, h]

/-- A line at the first column closes all blocks. -/
theorem marks_zero (h : ∀ w ∈ widths, 0 < w) :
    marks widths 0 = some (.newline :: List.replicate widths.length .dedent, []) := by
  have hclose : ∀ {ws : List UInt32}, (∀ w ∈ ws, 0 < w) → closeTo 0 ws = [] := by
    intro ws hws
    induction ws with
    | nil => rfl
    | cons w ws ih =>
      rw [closeTo, if_pos (hws w List.mem_cons_self)]
      exact ih fun v hv => hws v (List.mem_cons_of_mem _ hv)
  have hlt : ¬ widths.headD 0 < 0 := UInt32.not_lt_zero
  rw [marks, if_neg hlt, hclose h]
  rfl

/-- A row at the first column closes all blocks. Behind the line break in front of it and the
closings the text goes on as if it stood alone. -/
theorem sketch_of_first_column (hw : ∀ w ∈ widths, 0 < w) {cs : List Code}
    (hc : ∀ c ∈ cs.head?, c.column = 0 ∧ c.width = 0) :
    sketch widths cs = (sketchText cs).map fun rs =>
      (.newline, none) :: (List.replicate widths.length (.dedent, none) ++ rs) := by
  cases cs with
  | nil =>
    show some (_ :: _) = some (_ :: (_ ++ []))
    rw [List.append_nil]
  | cons c cs =>
    obtain ⟨hcolumn, hwidth⟩ := hc c rfl
    rw [sketch_cons_of_marks (marks_zero hw) hwidth, sketchText, hcolumn,
      if_neg UInt32.not_lt_zero, Option.map_map, List.map_cons, List.map_replicate]
    refine congrArg (Option.map · _) (funext fun rs => ?_)
    exact List.append_assoc _ c.tokens rs

end Marks

/-! ## The outline says what the recursion gives -/

section Outline

variable {source : String} {finish : Position} {l : Line} {ls : List Line} {c : Code}
  {cs : List Code}

theorem map_reading_tokens (h : l.Shows source c) (hl : IsLine l.tokens) :
    l.tokens.map (Token.reading source) = c.tokens := by
  rw [h.tokens, Line.tokens, List.map_map]
  refine List.map_congr_left ?_
  intro x hx
  exact Lexeme.reading_token (hl.2 x.token (List.mem_map_of_mem hx))

/-- Tokens of structure say their kinds. -/
theorem map_reading_turn {widths widths' : List UInt32} {n : Lexeme} {ts : List Token}
    (hn : n.kind = .newline) (h : turn widths n = .ok (ts, widths')) :
    ts.map (Token.reading source) = (ts.map Token.kind).map (·, none) := by
  have hts := List.filter_eq_nil_iff.1 (filter_turn hn h)
  rw [List.map_map]
  refine List.map_congr_left ?_
  intro t ht
  rw [Token.reading, if_neg (hts t ht)]
  rfl

/-- The outline of lines that start behind line breaks says what the recursion over their rows
gives. -/
theorem readings_outline (h : List.Forall₂ (Line.Shows source) ls cs)
    (hls : ∀ l ∈ ls, IsLine l.tokens) (hbreaks : ∀ l ∈ ls, l.newline?.isSome)
    (widths : List UInt32) :
    (outline finish widths ls).readings source = sketch widths cs := by
  induction h generalizing widths with
  | nil =>
    show some (List.map (Token.reading source) (_ :: List.replicate widths.length _)) = _
    rw [List.map_cons, List.map_replicate]
    rfl
  | @cons l c ls cs hshow _ ih =>
    obtain ⟨n, hn⟩ := Option.isSome_iff_exists.1 (hbreaks l List.mem_cons_self)
    obtain ⟨hk, hw⟩ := hshow.width n hn
    have hmarks := marks_eq_turn widths hk
    rw [hw] at hmarks
    have hrest := ih (fun m hm => hls m (List.mem_cons_of_mem _ hm))
      fun m hm => hbreaks m (List.mem_cons_of_mem _ hm)
    cases hturn : turn widths n with
    | error e =>
      rw [hturn] at hmarks
      rw [outline_of_turn_error hn hturn, sketch, hmarks]
      rfl
    | ok o =>
      obtain ⟨ts, widths'⟩ := o
      rw [hturn] at hmarks
      rw [outline_of_turn hn hturn, Drain.readings_behind, hrest, List.map_append,
        map_reading_turn hk hturn, map_reading_tokens hshow (hls l List.mem_cons_self),
        sketch_cons_of_marks hmarks rfl]

/-- The outline of a text says what the recursion over its rows gives. -/
theorem readings_outlineText (h : List.Forall₂ (Line.Shows source) ls cs)
    (hls : ∀ l ∈ ls, IsLine l.tokens) (hbreaks : ∀ l ∈ ls.tail, l.newline?.isSome) :
    (outlineText finish ls).readings source = sketchText cs := by
  cases h with
  | nil => rfl
  | @cons l c ls cs hshow h =>
    rw [outlineText, sketchText, hshow.column]
    by_cases hc : 0 < c.column
    · rw [if_pos hc, if_pos hc]
      rfl
    · rw [if_neg hc, if_neg hc, Drain.readings_behind,
        readings_outline h (fun m hm => hls m (List.mem_cons_of_mem _ hm)) hbreaks,
        map_reading_tokens hshow (hls l List.mem_cons_self)]

end Outline

end Layout

namespace Variant

variable {source : String} {rs : List (Kind × Option String)}

/-- The stream with structure of a text without faults says what the recursion over its rows
gives. -/
theorem readings_dented {xs : List Lexeme} (h : (Scan.ofText .dented source).items = xs.map .ok) :
    (dented.drain source).readings source = Layout.sketchText (codes source.toList) := by
  rw [drain_dented h]
  exact Layout.readings_outlineText (Line.shows_ofText h) (Line.isLine_of_mem h)
    (Line.lieIn_ofText h).breaks

/-- A text is drained to its end exactly when its rows have no faults and no row lacks its place,
and then its stream with structure says what the recursion over the rows gives. -/
theorem readings_dented_iff :
    (dented.drain source).readings source = some rs ↔
      (∀ c ∈ codes source.toList, c.Clean) ∧
        Layout.sketchText (codes source.toList) = some rs := by
  constructor
  · intro h
    obtain ⟨⟨t, ht⟩, -⟩ := Drain.readings_eq_some.1 h
    obtain ⟨-, xs, hxs, -⟩ := Layout.content_of_drain ht
    exact ⟨Line.clean_of_shows (Line.shows_ofText hxs), readings_dented hxs ▸ h⟩
  · rintro ⟨hclean, hsketch⟩
    obtain ⟨xs, hxs⟩ := Scan.exists_map_ok_of_clean hclean
    rw [readings_dented hxs, hsketch]

/-- Two texts whose rows hold the same have streams that say the same. -/
theorem readings_dented_congr {source' : String}
    (h : codes source'.toList = codes source.toList) :
    (dented.drain source').readings source' = (dented.drain source).readings source := by
  refine Option.ext fun rs => ?_
  rw [readings_dented_iff, readings_dented_iff, h]

/-! ## What follows from what a stream says -/

section Readings

variable (h : (dented.drain source).readings source = some rs)

include h

theorem kinds_of_readings : (dented.drain source).kinds = rs.map Prod.fst := by
  obtain ⟨-, rfl⟩ := Drain.readings_eq_some.1 h
  rw [List.map_map]
  rfl

/-- The texts of the content tokens are said by the stream. -/
theorem texts_of_readings :
    ((dented.drain source).tokens.filter (·.kind.isContent)).map (·.text? source) =
      (rs.filter (·.1.isContent)).map Prod.snd := by
  obtain ⟨-, rfl⟩ := Drain.readings_eq_some.1 h
  rw [List.filter_map, List.map_map]
  refine List.map_congr_left ?_
  intro t ht
  exact (if_pos (List.mem_filter.1 ht).2).symm

/-- The braced text is written from what the stream says. -/
theorem prepare_braced_of_readings :
    braced.prepare source =
      .ok (String.join (rs.map fun r => Braces.ofIndentation.piece r.1 (r.2.getD ""))) := by
  obtain ⟨⟨t, ht⟩, rfl⟩ := Drain.readings_eq_some.1 h
  show Braces.ofIndentation.write source (dented.drain source) = _
  rw [Braces.write, ht, List.map_map]
  refine congrArg (fun pieces => Except.ok (String.join pieces)) (List.map_congr_left ?_)
  intro u hu
  by_cases hk : u.kind.isContent = true
  · have hr : u.reading source = (u.kind, u.text? source) := by rw [Token.reading, if_pos hk]
    rw [Function.comp_apply, hr]
    rfl
  · -- The text of structure is not copied.
    have hr : u.reading source = (u.kind, none) := by rw [Token.reading, if_neg hk]
    have hne := Reader.kind_ne_eof_of_mem_drain hu
    rw [Function.comp_apply, hr]
    revert hk hne
    cases u.kind <;> simp [Kind.isContent, Braces.piece, Braces.mark?, Braces.ofIndentation]

end Readings

end Variant

end OffsideBench

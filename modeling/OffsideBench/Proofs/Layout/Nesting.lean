import OffsideBench.Proofs.Layout.Concatenation

/-!
# Nesting

A tab in front of every line makes a text that is one block of a longer text. The tab moves each
width by one tab stop, whatever blanks follow it, and comparisons of widths do not notice that they
are all moved alike; blank lines and comment lines get a blank more and still have no say.

Main statements: `lineWidth_tab`; `codes_tabbed`, the rows of a text with tabs hold what they held,
behind a tab; `Layout.sketch_deep`, one level deeper the recursion over rows says the same and
closes one block more; and `Layout.indented_program_is_a_block`.
-/

namespace OffsideBench

open Token (Kind)

/-! ## Widths behind a tab -/

/-- A tab leads to the first tab stop, and behind a tab stop the others are as far away as before:
also where the width wraps around. -/
theorem widen_tabWidth (w : UInt32) (c : Char) : widen (w + tabWidth) c = widen w c + tabWidth := by
  unfold widen
  refine UInt32.toNat_inj.1 ?_
  split
  · have hw := w.toNat_lt
    have htab : tabWidth.toNat = 8 := rfl
    have hone : (1 : UInt32).toNat = 1 := rfl
    simp only [UInt32.toNat_add, UInt32.toNat_mul, UInt32.toNat_div, htab, hone]
    omega
  · simp only [UInt32.toNat_add]
    omega

/-- A tab in front of a text makes it wider by one tab stop. -/
theorem lineWidth_tab (cs : List Char) : lineWidth ('\t' :: cs) = lineWidth cs + tabWidth := by
  have hfold : ∀ w, cs.foldl widen (w + tabWidth) = cs.foldl widen w + tabWidth := by
    induction cs with
    | nil => exact fun w => rfl
    | cons c cs ih =>
      intro w
      rw [List.foldl_cons, List.foldl_cons, widen_tabWidth, ih]
  exact hfold 0

/-! ## Rows behind a tab -/

/-- A text with a tab in front of each of its lines. -/
def tabbed (cs : List Char) : List Char :=
  '\t' :: cs.flatMap fun c => if c = '\n' then ['\n', '\t'] else [c]

/-- What a row holds behind a tab. -/
def Code.tab (c : Code) : Code := { c with lead := '\t' :: c.lead }

section Tabbed

variable {row br : List Char}

theorem tabbed_of_not_mem (h : '\n' ∉ row) : tabbed row = '\t' :: row := by
  refine congrArg (List.cons '\t') ?_
  induction row with
  | nil => rfl
  | cons c row ih =>
    have hc : c ≠ '\n' := fun e => h (e ▸ List.mem_cons_self)
    rw [List.flatMap_cons, if_neg hc, ih fun hm => h (List.mem_cons_of_mem _ hm)]
    rfl

/-- A line break stays where it is, and the tab stands behind it. -/
theorem EndsRow.tabbed_append (h : EndsRow row br) (rest : List Char) :
    tabbed (row ++ (br ++ rest)) = '\t' :: row ++ (br ++ tabbed rest) := by
  have hbr : tabbed (br ++ rest) = '\t' :: (br ++ tabbed rest) := by cases h <;> rfl
  have hrow := tabbed_of_not_mem h.not_mem
  unfold tabbed at hbr hrow ⊢
  rw [List.flatMap_append, (List.cons.inj hrow).2, (List.cons.inj hbr).2]
  rfl

theorem EndsRow.tab (h : EndsRow row br) : EndsRow ('\t' :: row) br := by
  have hn : '\n' ∉ '\t' :: row := by simp [h.not_mem]
  cases h with
  | crlf => exact .crlf hn
  | lf _ hcr =>
    refine .lf hn ?_
    rw [List.getLast?_cons]
    cases hl : row.getLast? with
    | none => decide
    | some c => exact fun hc => hcr (hl.trans hc)

/-- A tab is one more of the blanks in front of code. -/
theorem Code.ofRow?_tab (row : List Char) : ofRow? ('\t' :: row) = (ofRow? row).map tab := by
  have hsolid := Dialect.solid_blank (d := .dented) (c := '\t') rfl row
  by_cases h : Dialect.dented.solid row = []
  · rw [ofRow?_eq_none h, ofRow?_eq_none (hsolid.trans h)]
    rfl
  · rw [ofRow?_eq_some h, ofRow?_eq_some (hsolid ▸ h), hsolid, List.takeWhile_cons_of_pos rfl]
    rfl

/-- The rows of a text with tabs hold what they held, behind a tab. -/
theorem codes_tabbed (cs : List Char) : codes (tabbed cs) = (codes cs).map Code.tab := by
  have hrow : ∀ row,
      (Code.ofRow? ('\t' :: row)).toList = (Code.ofRow? row).toList.map Code.tab := by
    intro row
    rw [Code.ofRow?_tab]
    cases Code.ofRow? row <;> rfl
  induction cs using rowInduction with
  | last cs hcs =>
    have htab : '\n' ∉ '\t' :: cs := by simp [hcs]
    rw [tabbed_of_not_mem hcs, codes_of_not_mem htab, codes_of_not_mem hcs, hrow]
  | row row br rest hends ih =>
    rw [hends.tabbed_append, hends.tab.codes_append, hends.codes_append, List.map_append, hrow, ih]

theorem Code.width_tab (c : Code) : c.tab.width = c.width + tabWidth := by
  rw [width, tab, List.takeWhile_cons_of_pos rfl, lineWidth_tab]
  rfl

end Tabbed

namespace Layout

/-! ## The recursion over rows, one level deeper -/

/-- The widths of open blocks in a block behind a tab. -/
def deep (widths : List UInt32) : List UInt32 := widths.map (· + tabWidth) ++ [tabWidth]

/-- A width that does not wrap around behind a tab. -/
def Narrow (w : UInt32) : Prop := w.toNat + tabWidth.toNat < UInt32.size

section Deep

variable {width : UInt32} {widths : List UInt32}

/-- Widths that are moved alike compare as before. -/
theorem lt_add_tabWidth {v w : UInt32} (hv : Narrow v) (hw : Narrow w) :
    v + tabWidth < w + tabWidth ↔ v < w := by
  unfold Narrow at hv hw
  rw [UInt32.lt_iff_toNat_lt, UInt32.lt_iff_toNat_lt, UInt32.toNat_add, UInt32.toNat_add,
    Nat.mod_eq_of_lt hv, Nat.mod_eq_of_lt hw, Nat.add_lt_add_iff_right]

theorem narrow_zero : Narrow 0 := by
  show 0 + 8 < UInt32.size
  decide

theorem narrow_headD (h : ∀ w ∈ widths, Narrow w) : Narrow (widths.headD 0) := by
  cases widths with
  | nil => exact narrow_zero
  | cons w ws => exact h w List.mem_cons_self

theorem headD_deep (widths : List UInt32) : (deep widths).headD 0 = widths.headD 0 + tabWidth := by
  cases widths <;> rfl

theorem length_deep (widths : List UInt32) : (deep widths).length = widths.length + 1 := by
  simp [deep]

/-- Which blocks a line closes does not depend on the level. The block behind the tab is closed by
no line that has a tab itself. -/
theorem closeTo_deep (hw : Narrow width) (h : ∀ w ∈ widths, Narrow w) :
    closeTo (width + tabWidth) (deep widths) = deep (closeTo width widths) := by
  induction widths with
  | nil =>
    have hlt : ¬ width + tabWidth < tabWidth := fun hlt =>
      UInt32.not_lt_zero ((lt_add_tabWidth hw narrow_zero).1 hlt)
    exact if_neg hlt
  | cons w ws ih =>
    show closeTo _ ((w + tabWidth) :: deep ws) = _
    have hlt := lt_add_tabWidth hw (h w List.mem_cons_self)
    by_cases hc : width < w
    · rw [closeTo, closeTo, if_pos hc, if_pos (hlt.2 hc)]
      exact ih fun v hv => h v (List.mem_cons_of_mem _ hv)
    · rw [closeTo, closeTo, if_neg hc, if_neg (mt hlt.1 hc)]
      rfl

/-- What is handed out in front of a line does not depend on the level. -/
theorem marks_deep (hw : Narrow width) (h : ∀ w ∈ widths, Narrow w) :
    marks (deep widths) (width + tabWidth) =
      (marks widths width).map fun o => (o.1, deep o.2) := by
  have hlt := lt_add_tabWidth (narrow_headD h) hw
  unfold marks
  simp only [headD_deep, closeTo_deep hw h, length_deep, Nat.add_sub_add_right, hlt,
    UInt32.add_left_inj]
  split
  · rfl
  · by_cases hplace : width = (closeTo width widths).headD 0
    · rw [if_pos hplace, if_pos hplace]
      rfl
    · rw [if_neg hplace, if_neg hplace]
      rfl

theorem narrow_of_marks {ks : List Kind} {widths' : List UInt32}
    (hmarks : marks widths width = some (ks, widths')) (hw : Narrow width)
    (h : ∀ w ∈ widths, Narrow w) : ∀ w ∈ widths', Narrow w := by
  intro w hm
  rcases marks_cases hmarks with ⟨-, -, rfl⟩ | ⟨-, -, rfl, -⟩
  · rcases List.mem_cons.1 hm with rfl | hm
    · exact hw
    · exact h w hm
  · exact h w ((closeTo_suffix width widths).mem hm)

/-- One level deeper the same is said, and one block more is closed. -/
theorem sketch_deep {cs : List Code} (hcs : ∀ c ∈ cs, Narrow c.width)
    (h : ∀ w ∈ widths, Narrow w) :
    sketch (deep widths) (cs.map Code.tab) =
      (sketch widths cs).map (· ++ [(.dedent, none)]) := by
  induction cs generalizing widths with
  | nil =>
    show some _ = some (_ :: (_ ++ [_]))
    rw [length_deep, List.replicate_succ']
  | cons c cs ih =>
    have hc := hcs c List.mem_cons_self
    have hmarks := marks_deep hc h
    rw [List.map_cons]
    cases hm : marks widths c.width with
    | none =>
      rw [hm] at hmarks
      rw [sketch, Code.width_tab, hmarks, sketch, hm]
      rfl
    | some o =>
      obtain ⟨ks, widths'⟩ := o
      rw [hm] at hmarks
      rw [sketch_cons_of_marks hm rfl, sketch_cons_of_marks hmarks (Code.width_tab c),
        ih (fun d hd => hcs d (List.mem_cons_of_mem _ hd)) (narrow_of_marks hm hc h),
        Option.map_map, Option.map_map]
      refine congrArg (Option.map · (sketch widths' cs)) (funext fun rs => ?_)
      exact (List.append_assoc _ rs _).symm

end Deep

/-! ## Texts -/

theorem codes_name : codes ['x', '\n'] = [⟨[], [⟨.token .ident, ['x']⟩]⟩] := by decide +kernel

/-- What a program says as a block of a longer text. -/
theorem sketchText_block {c : Code} {cs : List Code} {rs : List (Kind × Option String)}
    (h : sketchText (c :: cs) = some rs) (hc : c.column = 0 ∧ c.width = 0)
    (hcs : ∀ d ∈ cs, Narrow d.width) :
    sketchText (codes ['x', '\n'] ++ (c :: cs).map Code.tab) =
      some ([(.ident, some "x"), (.indent, none)] ++ rs ++ [(.dedent, none)]) := by
  have hmarks : marks [] c.tab.width = some ([.indent], deep []) := by
    rw [Code.width_tab, hc.2]
    rfl
  rw [sketchText, hc.1, if_neg UInt32.not_lt_zero] at h
  obtain ⟨rs, hrest, rfl⟩ := Option.map_eq_some_iff.1 h
  rw [codes_name, List.map_cons, List.singleton_append, sketchText, if_neg (by decide),
    sketch_cons_of_marks hmarks rfl, sketch_deep hcs (by simp), hrest]
  show some (_ :: _ :: (c.tokens ++ (rs ++ _))) = some (_ :: _ :: (c.tokens ++ rs ++ _))
  rw [List.append_assoc]

/-- A program that says something says the same as a block. -/
theorem readings_block {source : String} {rs : List (Kind × Option String)}
    (h : (Variant.dented.drain source).readings source = some rs) (hrs : rs ≠ [])
    (hwidth : ∀ w ∈ indentWidths source, w + 8 < UInt32.size) :
    let source' := "x\n" ++ String.ofList (tabbed source.toList)
    (Variant.dented.drain source').readings source' =
      some ([(.ident, some "x"), (.indent, none)] ++ rs ++ [(.dedent, none)]) := by
  intro source'
  obtain ⟨hclean, hsketch⟩ := Variant.readings_dented_iff.1 h
  obtain ⟨xs, hxs⟩ := Scan.exists_map_ok_of_clean hclean
  rw [indentWidths_eq_codes hxs] at hwidth
  have hcodes : codes source'.toList =
      codes ['x', '\n'] ++ (codes source.toList).map Code.tab := by
    have hwhole : WholeLines ['x', '\n'] := .inr rfl
    have htext : source'.toList = ['x', '\n'] ++ tabbed source.toList :=
      String.toList_append.trans (congrArg (['x', '\n'] ++ ·) String.toList_ofList)
    rw [htext, hwhole.codes_append, codes_tabbed]
  refine Variant.readings_dented_iff.2 ⟨?_, ?_⟩
  · rw [hcodes]
    intro c hc
    rcases List.mem_append.1 hc with hc | hc
    · rw [codes_name, List.mem_singleton] at hc
      subst hc
      intro s hs
      rw [List.mem_singleton.1 hs]
      rfl
    · obtain ⟨c, hmem, rfl⟩ := List.mem_map.1 hc
      exact hclean c hmem
  · rw [hcodes]
    cases hcs : codes source.toList with
    | nil =>
      rw [hcs] at hsketch
      exact absurd (Option.some.inj hsketch).symm hrs
    | cons c cs =>
      rw [hcs] at hsketch hwidth
      obtain ⟨hfirst, hlater⟩ := List.forall_mem_cons.1 hwidth
      refine sketchText_block hsketch (first_column_of_sketchText hsketch (by omega)) ?_
      intro e he
      have hlt := hlater _ (List.mem_map_of_mem he)
      rw [Narrow, Code.width, toNat_lineWidth (by omega)]
      exact hlt

/-- **An indented program is one block.** A text with at least one content token is drained to its
end, and no indentation wraps around when it gets a tab more. Then the text with a tab in front of
each line, behind a line with the name `x`, is drained to its end. Its kinds are those of the text
in a block behind the name, and its content tokens have the same texts. -/
theorem indented_program_is_a_block {source : String} {t : Token}
    (h : (Variant.dented.drain source).finish = .ok t)
    (hcontent : (Variant.dented.drain source).tokens.filter (·.kind.isContent) ≠ [])
    (hwidth : ∀ w ∈ indentWidths source, w + 8 < UInt32.size) :
    let source' := "x\n" ++ String.ofList (tabbed source.toList)
    let d := Variant.dented.drain source
    let d' := Variant.dented.drain source'
    d'.finish = .ok (Token.empty .eof source'.utf8ByteSize) ∧
    d'.kinds = [.ident, .indent] ++ d.kinds ++ [.dedent] ∧
    (d'.tokens.filter (·.kind.isContent)).map (·.text? source') =
      some "x" :: (d.tokens.filter (·.kind.isContent)).map (·.text? source) := by
  intro source' d d'
  have hr := Drain.readings_of_finish source h
  have hne : d.tokens.map (Token.reading source) ≠ [] := by
    intro hnil
    exact hcontent (congrArg (List.filter _) (List.map_eq_nil_iff.1 hnil))
  have hr' := readings_block hr hne hwidth
  obtain ⟨⟨t', ht'⟩, -⟩ := Drain.readings_eq_some.1 hr'
  refine ⟨?_, ?_, ?_⟩
  · rw [ht', finish_of_drain ht']
  · rw [Variant.kinds_of_readings hr', Variant.kinds_of_readings hr, List.map_append,
      List.map_append]
    rfl
  · rw [Variant.texts_of_readings hr', Variant.texts_of_readings hr, List.filter_append,
      List.filter_append, List.map_append, List.map_append]
    exact List.append_nil _

/-- The statement of `Layout.indented_program_is_a_block` for a program with a blank line that ends
in a carriage return and a line feed, an indented comment, and two blocks that end at once. -/
theorem indented_program_is_a_block_nested :
    (Variant.dented.drain
      ("x\n" ++ String.ofList (tabbed "a:\n \tb:\r\n \r\n\t    c\n  # d\ne\n".toList))).kinds =
      [.ident, .indent] ++
        (Variant.dented.drain "a:\n \tb:\r\n \r\n\t    c\n  # d\ne\n").kinds ++ [.dedent] := by
  have hfinish : (Variant.dented.drain "a:\n \tb:\r\n \r\n\t    c\n  # d\ne\n").finish =
      .ok ⟨.eof, 27, 27⟩ := by decide +kernel
  have hcontent : (Variant.dented.drain
      "a:\n \tb:\r\n \r\n\t    c\n  # d\ne\n").tokens.filter (·.kind.isContent) ≠ [] := by
    decide +kernel
  have hwidths : indentWidths "a:\n \tb:\r\n \r\n\t    c\n  # d\ne\n" = [0, 8, 12, 0] := by
    decide +kernel
  exact (indented_program_is_a_block hfinish hcontent (by rw [hwidths]; decide)).2.1

end Layout

end OffsideBench

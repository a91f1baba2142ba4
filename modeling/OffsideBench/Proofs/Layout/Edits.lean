import Mathlib.Logic.Relation
import OffsideBench.Proofs.Layout.Sketch

/-!
# Edits without structure

Blank lines, lines with nothing but a comment, blanks at the end of a line and comments there carry
no structure, wherever they stand and however they are indented: what the rows of a text hold stays
the same.

Main statements: `Edit.codes_eq`, one edit leaves what the rows hold; and
`Layout.edits_carry_no_structure`, any number of edits leaves what the stream with structure says
and the braced text.
-/

namespace OffsideBench

open Token (Kind)

/-- Blanks on one line, maybe with a comment behind them. -/
inductive IsTrail : List Char → Prop where
  /-- Blanks alone. -/
  | blanks {bs : List Char} (h : ∀ c ∈ bs, c ∈ [' ', '\t', '\x0c']) : IsTrail bs
  /-- Blanks and a comment. -/
  | comment {bs text : List Char} (h : ∀ c ∈ bs, c ∈ [' ', '\t', '\x0c'])
    (htext : ∀ c ∈ text, c ≠ '\n' ∧ c ≠ '\r') : IsTrail (bs ++ '#' :: text)

/-- One edit of a text that carries no structure. -/
inductive Edit : List Char → List Char → Prop where
  /-- A whole line without code is put at the start of the text or behind a line feed. -/
  | line {front trail br : List Char} (hfront : front = [] ∨ front.getLast? = some '\n')
    (htrail : IsTrail trail) (hbr : br = ['\n'] ∨ br = ['\r', '\n']) (rest : List Char) :
    Edit (front ++ rest) (front ++ (trail ++ br) ++ rest)
  /-- A line gets blanks or a comment at its end, in front of its line break. A carriage return in
  front of the line feed belongs to the line break. -/
  | endOfLine {front trail br : List Char} (htrail : IsTrail trail)
    (hbr : br = ['\n'] ∧ front.getLast? ≠ some '\r' ∨ br = ['\r', '\n']) (rest : List Char) :
    Edit (front ++ br ++ rest) (front ++ trail ++ br ++ rest)
  /-- The last line gets blanks or a comment at its end. -/
  | endOfText {trail : List Char} (htrail : IsTrail trail) (front : List Char) :
    Edit front (front ++ trail)

/-! ## The end of a row -/

namespace IsTrail

variable {trail : List Char}

/-- The blanks one by one. -/
theorem eq_of_mem {c : Char} (h : c ∈ [' ', '\t', '\x0c']) : c = ' ' ∨ c = '\t' ∨ c = '\x0c' := by
  simpa using h

theorem isBlank_of_mem {c : Char} (h : c ∈ [' ', '\t', '\x0c']) :
    Dialect.dented.isBlank c = true := by
  rcases eq_of_mem h with rfl | rfl | rfl <;> rfl

/-- The end of a row stays on the row. -/
theorem not_isBreak (h : IsTrail trail) : ∀ c ∈ trail, isBreak c = false := by
  have hblank : ∀ {c : Char}, c ∈ [' ', '\t', '\x0c'] → isBreak c = false := by
    intro c hc
    rcases eq_of_mem hc with rfl | rfl | rfl <;> rfl
  intro c hc
  cases h with
  | blanks h => exact hblank (h c hc)
  | comment h htext =>
    rcases List.mem_append.1 hc with hc | hc
    · exact hblank (h c hc)
    rcases List.mem_cons.1 hc with rfl | hc
    · rfl
    · have hne := htext c hc
      simp [isBreak, hne.1, hne.2]

theorem not_mem_newline (h : IsTrail trail) : '\n' ∉ trail := fun hm =>
  absurd (h.not_isBreak _ hm) (by decide)

/-- The end of a row starts with no character that goes on a token. -/
theorem stops (h : IsTrail trail) : Stops trail := by
  have hblank : ∀ {c : Char}, c ∈ [' ', '\t', '\x0c'] → isWordPart c = false ∧ c ≠ '=' := by
    intro c hc
    rcases eq_of_mem hc with rfl | rfl | rfl <;> decide
  intro x hx
  cases h with
  | blanks h => exact hblank (h x (List.mem_of_head? hx))
  | comment h =>
    rename_i bs text htext
    cases bs with
    | nil =>
      obtain rfl : '#' = x := Option.some.inj hx
      decide
    | cons b bs =>
      obtain rfl : b = x := Option.some.inj hx
      exact hblank (h b List.mem_cons_self)

/-- A comment up to the end of its row holds no token. -/
theorem solid_hash {cs : List Char} (h : ∀ c ∈ cs, isBreak c = false) :
    Dialect.dented.solid ('#' :: cs) = [] := by
  have hrest : (Dialect.dented.piece '#' cs).rest = cs.dropWhile (!isBreak ·) := rfl
  have hnil : cs.dropWhile (!isBreak ·) = [] :=
    List.dropWhile_eq_nil_iff.2 fun c hc => by simp [h c hc]
  rw [Dialect.solid_gap rfl, hrest, hnil, Dialect.solid_nil]

/-- The end of a row holds no token. -/
theorem solid_eq_nil (h : IsTrail trail) : Dialect.dented.solid trail = [] := by
  have hbreak := h.not_isBreak
  cases h with
  | blanks h =>
    have hsolid := Dialect.solid_blanks (fun c hc => isBlank_of_mem (h c hc)) []
    rw [List.append_nil, Dialect.solid_nil] at hsolid
    exact hsolid
  | comment h =>
    rw [Dialect.solid_blanks fun c hc => isBlank_of_mem (h c hc)]
    exact solid_hash fun c hc =>
      hbreak c (List.mem_append_right _ (List.mem_cons_of_mem _ hc))

/-- A comment on a row without faults goes on up to the end of the row. -/
theorem not_isBreak_of_clean {cs : List Char} (hn : '\n' ∉ cs)
    (hclean : ∀ s ∈ Dialect.dented.solid ('#' :: cs), s.reading.isSome) :
    ∀ c ∈ cs, isBreak c = false := by
  rw [Dialect.solid_gap rfl] at hclean
  rcases Dialect.rest_comment hn with ⟨-, hbreak⟩ | ⟨ds, hrest, hpiece⟩
  · exact hbreak
  · rw [hrest, Dialect.solid_cons (by rw [hpiece]; nofun), hpiece] at hclean
    exact absurd (hclean _ List.mem_cons_self) Bool.false_ne_true

/-- A row without faults holds the same tokens with another end. -/
theorem solid_append (h : IsTrail trail) {row : List Char} (hn : '\n' ∉ row)
    (hclean : ∀ s ∈ Dialect.dented.solid row, s.reading.isSome) :
    Dialect.dented.solid (row ++ trail) = Dialect.dented.solid row := by
  induction hlen : row.length using Nat.strongRecOn generalizing row with
  | ind n ih =>
    cases row with
    | nil => exact h.solid_eq_nil.trans (Dialect.solid_nil _).symm
    | cons c cs =>
      have hc : c ≠ '\n' := fun e => hn (e ▸ List.mem_cons_self)
      have hcs : '\n' ∉ cs := fun hm => hn (List.mem_cons_of_mem _ hm)
      have htext := Dialect.dented.piece_text_append_rest c cs
      rw [List.cons_append]
      cases hr : (Dialect.dented.piece c cs).role with
      | gap =>
        rcases Dialect.eq_of_gap hr with hb | rfl
        · rw [Dialect.solid_blank hb] at hclean ⊢
          rw [Dialect.solid_blank hb]
          exact ih cs.length (hlen ▸ Nat.lt_succ_self _) hcs hclean rfl
        · have hcomment := not_isBreak_of_clean hcs hclean
          rw [solid_hash hcomment, solid_hash]
          intro c hm
          exact (List.mem_append.1 hm).elim (hcomment c) (h.not_isBreak c)
      | fault =>
        have hne : (Dialect.dented.piece c cs).role ≠ .gap := by
          rw [hr]
          nofun
        rw [Dialect.solid_cons hne, hr] at hclean
        exact absurd (hclean _ List.mem_cons_self) Bool.false_ne_true
      | token k =>
        have hpiece := Dialect.piece_append_of_head hc (.inr ⟨⟨k, hr⟩, h.stops⟩) <| by
          rintro - hd
          rcases List.mem_append.1 (List.mem_of_head? hd) with hm | hm
          · exact hcs hm
          · exact h.not_mem_newline hm
        have hne : (Dialect.dented.piece c cs).role ≠ .gap := by
          rw [hr]
          nofun
        rw [Dialect.solid_cons hne] at hclean ⊢
        rw [Dialect.solid_cons (by rw [hpiece]; exact hne), hpiece]
        refine congrArg (List.cons _) (ih _ (hlen ▸ Dialect.dented.piece_rest_length_lt c cs) ?_
          (fun s hs => hclean s (List.mem_cons_of_mem _ hs)) rfl)
        intro hm
        refine hn ?_
        rw [← htext]
        exact List.mem_append_right _ hm

/-- Blanks in front of code are not changed by the end of the row. -/
theorem takeWhile_append {row : List Char} (hsolid : Dialect.dented.solid row ≠ []) :
    (row ++ trail).takeWhile Dialect.dented.isBlank = row.takeWhile Dialect.dented.isBlank := by
  have hdrop : row.dropWhile Dialect.dented.isBlank ≠ [] := by
    intro hnil
    refine hsolid ?_
    have hblank := Dialect.solid_blanks (List.dropWhile_eq_nil_iff.1 hnil) []
    rw [List.append_nil, Dialect.solid_nil] at hblank
    exact hblank
  rw [List.takeWhile_append, if_neg]
  intro hlen
  have hrow := List.takeWhile_append_dropWhile (p := Dialect.dented.isBlank) (l := row)
  have hsum := congrArg List.length hrow
  rw [List.length_append, hlen] at hsum
  exact hdrop (List.length_eq_zero_iff.1 (by omega))

/-- What a row without faults holds is not changed by its end. -/
theorem ofRow?_append (h : IsTrail trail) {row : List Char} (hn : '\n' ∉ row)
    (hclean : ∀ c ∈ Code.ofRow? row, c.Clean) : Code.ofRow? (row ++ trail) = Code.ofRow? row := by
  by_cases hsolid : Dialect.dented.solid row = []
  · have happend := h.solid_append hn (by rw [hsolid]; simp)
    rw [Code.ofRow?_eq_none hsolid, Code.ofRow?_eq_none (happend.trans hsolid)]
  · rw [Code.ofRow?_eq_some hsolid] at hclean ⊢
    have happend := h.solid_append hn (hclean _ rfl)
    rw [Code.ofRow?_eq_some (by rwa [happend]), happend, takeWhile_append hsolid]

end IsTrail

/-! ## Edits leave what the rows hold -/

/-- A text is made of whole lines and of its last row. -/
theorem exists_last_row (cs : List Char) :
    ∃ front row, cs = front ++ row ∧ WholeLines front ∧ '\n' ∉ row := by
  induction cs using rowInduction with
  | last cs hcs => exact ⟨[], cs, rfl, .inl rfl, hcs⟩
  | row row br rest hrow ih =>
    obtain ⟨front, last, rfl, hfront, hlast⟩ := ih
    exact ⟨row ++ (br ++ front), last, by simp, hrow.wholeLines hfront, hlast⟩

namespace Edit

variable {cs cs' : List Char}

/-- An edit leaves what the rows of a text hold, if the text has no faults. -/
theorem codes_eq (h : Edit cs cs') (hclean : ∀ c ∈ codes cs, c.Clean) : codes cs' = codes cs := by
  cases h with
  | @line front trail br hfront htrail hbr rest =>
    have hends : EndsRow trail br := (EndsRow.nil hbr).append htrail.not_isBreak
    rw [List.append_assoc, List.append_assoc, WholeLines.codes_append hfront,
      WholeLines.codes_append hfront, hends.codes_append, Code.ofRow?_eq_none htrail.solid_eq_nil]
    rfl
  | @endOfLine front trail br htrail hbr rest =>
    obtain ⟨front, row, rfl, hfront, hn⟩ := exists_last_row front
    have hends : EndsRow row br := by
      rcases hbr with ⟨rfl, hcr⟩ | rfl
      · refine .lf hn fun hl => hcr ?_
        rw [List.getLast?_append, hl]
        rfl
      · exact .crlf hn
    have hcodes : codes (front ++ row ++ br ++ rest) =
        codes front ++ ((Code.ofRow? row).toList ++ codes rest) := by
      rw [List.append_assoc, List.append_assoc, hfront.codes_append, hends.codes_append]
    rw [hcodes] at hclean ⊢
    rw [List.append_assoc, List.append_assoc front, List.append_assoc front, hfront.codes_append,
      (hends.append htrail.not_isBreak).codes_append, htrail.ofRow?_append hn]
    intro c hc
    exact hclean c (List.mem_append_right _ (List.mem_append_left _ (Option.mem_toList.2 hc)))
  | @endOfText trail htrail =>
    obtain ⟨front, row, rfl, hfront, hn⟩ := exists_last_row cs
    have hn' : '\n' ∉ row ++ trail := by
      rw [List.mem_append]
      exact not_or.2 ⟨hn, htrail.not_mem_newline⟩
    rw [hfront.codes_append, codes_of_not_mem hn] at hclean ⊢
    rw [List.append_assoc, hfront.codes_append, codes_of_not_mem hn', htrail.ofRow?_append hn]
    intro c hc
    exact hclean c (List.mem_append_right _ (Option.mem_toList.2 hc))

/-- So does any number of edits. -/
theorem codes_eq_of_edits (h : Relation.ReflTransGen Edit cs cs')
    (hclean : ∀ c ∈ codes cs, c.Clean) : codes cs' = codes cs := by
  induction h with
  | refl => rfl
  | tail _ hedit ih => rw [hedit.codes_eq (ih ▸ hclean), ih]

end Edit

/-- **Edits carry no structure.** A text is drained to its end, and another one is made of it by any
number of edits: blank lines and lines with nothing but a comment are put in, and lines get blanks
or a comment at their ends. Then the other text is drained to its end as well, with the same kinds
and the same texts of content tokens in the same order, and has the same braced text. -/
theorem Layout.edits_carry_no_structure {source source' : String} {t : Token}
    (h : (Variant.dented.drain source).finish = .ok t)
    (hedits : Relation.ReflTransGen Edit source.toList source'.toList) :
    let d := Variant.dented.drain source
    let d' := Variant.dented.drain source'
    (∃ t', t'.kind = .eof ∧ d'.finish = .ok t') ∧ d'.kinds = d.kinds ∧
    (d'.tokens.filter (·.kind.isContent)).map (·.text? source') =
      (d.tokens.filter (·.kind.isContent)).map (·.text? source) ∧
    ∃ p, Variant.braced.prepare source = .ok p ∧ Variant.braced.prepare source' = .ok p := by
  intro d d'
  have hr := Drain.readings_of_finish source h
  have hclean := (Variant.readings_dented_iff.1 hr).1
  have hr' := (Variant.readings_dented_congr (Edit.codes_eq_of_edits hedits hclean)).trans hr
  obtain ⟨⟨t', ht'⟩, -⟩ := Drain.readings_eq_some.1 hr'
  refine ⟨⟨t', Reader.kind_of_drain_finish ht', ht'⟩, ?_, ?_, _,
    Variant.prepare_braced_of_readings hr, Variant.prepare_braced_of_readings hr'⟩
  · rw [Variant.kinds_of_readings hr', Variant.kinds_of_readings hr]
  · rw [Variant.texts_of_readings hr', Variant.texts_of_readings hr]

/-- The statement of `Layout.edits_carry_no_structure` for an indented comment line in front of the
first line of code, and a comment with a quote in front of the line break that ends it. -/
theorem Layout.edits_carry_no_structure_twice :
    (Variant.dented.drain "\t # a\r\nif b: #\"\n  c").kinds =
      (Variant.dented.drain "if b:\n  c").kinds := by
  have hfinish : (Variant.dented.drain "if b:\n  c").finish = .ok ⟨.eof, 9, 9⟩ := by
    decide +kernel
  have hindented : IsTrail (['\t', ' '] ++ '#' :: [' ', 'a']) :=
    .comment (by simp) (by simp)
  have hquote : IsTrail ([' '] ++ '#' :: ['"']) := .comment (by simp) (by simp)
  have hline : Edit "if b:\n  c".toList "\t # a\r\nif b:\n  c".toList :=
    .line (.inl rfl) hindented (.inr rfl) _
  have htrail : Edit "\t # a\r\nif b:\n  c".toList "\t # a\r\nif b: #\"\n  c".toList :=
    @Edit.endOfLine "\t # a\r\nif b:".toList _ _ hquote (.inl ⟨rfl, by decide⟩) _
  exact (edits_carry_no_structure hfinish (.tail (.single hline) htrail)).2.1

end OffsideBench

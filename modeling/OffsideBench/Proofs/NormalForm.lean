import OffsideBench.Proofs.ReadBack

/-!
# The normal form of text with braces

Text with braces that is lexed and written with braces again keeps its tokens, and gets its blanks
and comments replaced: a line break behind each mark of block structure, and a space behind each
other token. What is written depends on what the stream says alone, so writing it once more changes
nothing, and a text that was made from indentation has that form from the start.

Main statement: `Braces.normal_form_is_stable`.
-/

namespace OffsideBench

open Token (Kind)

/-! ## Marks and their kinds -/

theorem brace?_ne_ofWord (c : Char) (cs : List Char) : brace? c ≠ some (Kind.ofWord cs) := by
  intro h
  rcases eq_of_brace? h with rfl | rfl | rfl <;> unfold Kind.ofWord at h <;> split at h <;> cases h

/-- A mark of block structure is spelled in one way. -/
theorem Spells.eq_of_brace {k : Kind} {cs : List Char} (h : Spells k cs) {c : Char}
    (hc : brace? c = some k) : cs = [c] := by
  cases h with
  | word => exact absurd hc (brace?_ne_ofWord _ _)
  | operator ho =>
    rcases eq_of_brace? hc with rfl | rfl | rfl <;> cases hc <;>
      rcases eq_of_operator? ho with rfl | rfl | rfl | rfl | rfl | rfl | rfl | rfl | rfl | rfl <;>
        cases ho
  | brace hb =>
    rcases eq_of_brace? hc with rfl | rfl | rfl <;> cases hc <;>
      rcases eq_of_brace? hb with rfl | rfl | rfl <;> cases hb <;> rfl
  | _ => rcases eq_of_brace? hc with rfl | rfl | rfl <;> cases hc

/-- The dented form has no marks of block structure. -/
theorem Dialect.brace?_ne_of_dented {c : Char} {cs : List Char} {k : Kind}
    (h : (Dialect.dented.piece c cs).role = .token k) (b : Char) : brace? b ≠ some k := by
  intro hb
  have hfront := Dialect.dented.piece_text_append_rest c cs
  rw [(Dialect.dented.spells_piece c cs h).eq_of_brace hb] at hfront
  obtain rfl : b = c := (List.cons.inj hfront).1
  rcases eq_of_brace? hb with rfl | rfl | rfl <;> cases h

/-- The braced form has no line breaks. -/
theorem Dialect.ne_newline_of_braced {c : Char} {cs : List Char} {k : Kind}
    (h : (Dialect.braced.piece c cs).role = .token k) : k ≠ .newline := by
  rintro rfl
  have hfront := Dialect.braced.piece_text_append_rest c cs
  have hbreaks := (Dialect.braced.spells_piece c cs h).lineBreaks rfl
  have hc : Dialect.braced.isBlank c = true := by
    generalize (Dialect.braced.piece c cs).text = text at hfront hbreaks
    cases hbreaks with
    | last hcr => rcases hcr with rfl | rfl <;> exact (List.cons.inj hfront).1 ▸ rfl
    | more hcr => rcases hcr with rfl | rfl <;> exact (List.cons.inj hfront).1 ▸ rfl
  rw [Dialect.piece_blank hc] at h
  cases h

/-- Each lexeme of a text was found as a piece of it. -/
theorem Scan.exists_piece_of_mem_items {d : Dialect} {source : String} {x : Lexeme}
    (h : .ok x ∈ (Scan.ofText d source).items) : ∃ c cs, (d.piece c cs).role = .token x.kind := by
  unfold Scan.ofText at h
  generalize Position.origin = p at h
  generalize source.toList = cs at h
  fun_induction d.stretches cs generalizing p with
  | case1 => simp at h
  | case2 c cs ih =>
    rw [Scan.ofChars_cons] at h
    rcases List.mem_append.1 h with h | h
    · cases hr : (d.piece c cs).role with
      | gap => simp [hr, item?] at h
      | fault => simp [hr, item?] at h
      | token k =>
        obtain rfl : x = _ := by simpa [hr, item?] using h
        exact ⟨c, cs, hr⟩
    · exact ih _ h

/-- A stream with structure that is drained without a fault has no marks of the braced form. -/
theorem Variant.brace?_ne_of_mem_drain {source : String} {t u : Token}
    (h : (dented.drain source).finish = .ok t) (hu : u ∈ (dented.drain source).tokens) (b : Char) :
    brace? b ≠ some u.kind := by
  intro hb
  have hk : u.kind.isContent = true := by
    rcases eq_of_brace? hb with rfl | rfl | rfl <;> rw [← Option.some.inj hb] <;> rfl
  obtain ⟨-, xs, hxs, hcontent⟩ := Layout.content_of_drain h
  have hmem : u ∈ (xs.map Lexeme.token).filter (·.kind.isContent) :=
    hcontent ▸ List.mem_filter.2 ⟨hu, hk⟩
  obtain ⟨x, hx, rfl⟩ := List.mem_map.1 (List.mem_filter.1 hmem).1
  have hitem : .ok x ∈ (Scan.ofText .dented source).items := by
    rw [hxs]
    exact List.mem_map_of_mem hx
  obtain ⟨c, cs, hr⟩ := Scan.exists_piece_of_mem_items hitem
  exact Dialect.brace?_ne_of_dented hr b hb

namespace Braces

/-! ## Writing text with braces again -/

/-- Block structure by braces, one mark to a line. -/
def ofBraces : Braces := ⟨.lbrace, .rbrace, .semi, "\n"⟩

/-- Text with braces, written again from its tokens. -/
def normalize (text : String) : Except LexError String :=
  ofBraces.write text (Variant.braced.drain text)

section OfBraces

variable {text : String} {t u : Token}

theorem mark?_ofBraces {c : Char} {k : Kind} (h : brace? c = some k) :
    ofBraces.mark? k = some (String.ofList [c]) := by
  rcases eq_of_brace? h with rfl | rfl | rfl <;> cases h <;> rfl

theorem mark?_ofBraces_eq_none {k : Kind} (h : ∀ c, brace? c ≠ some k) :
    ofBraces.mark? k = none := by
  have hl : k ≠ .lbrace := fun e => h '{' (e ▸ rfl)
  have hr : k ≠ .rbrace := fun e => h '}' (e ▸ rfl)
  have hs : k ≠ .semi := fun e => h ';' (e ▸ rfl)
  rw [mark?, ofBraces, if_neg hl, if_neg hr, if_neg hs]

/-- A token of the braced form that is written again is read back as it was. -/
theorem solid_piece_ofBraces (ht : u.IsSpelled text) (hn : u.kind ≠ .newline) (rest : List Char) :
    (Dialect.braced.solid ((ofBraces.piece u.kind (u.textIn text)).toList ++ rest)).map
        Stretch.reading =
      some (u.kind, u.text? text) :: (Dialect.braced.solid rest).map Stretch.reading := by
  by_cases hb : ∃ c, brace? c = some u.kind
  · obtain ⟨c, hc⟩ := hb
    obtain ⟨cs, hcs, htext⟩ := ht
    rw [htext, hcs.eq_of_brace hc, piece, mark?_ofBraces hc]
    exact solid_mark hc String.toList_ofList isBlank_of_mem_lineFeed rest
  · rw [piece, mark?_ofBraces_eq_none fun c hc => hb ⟨c, hc⟩]
    exact solid_copy ht hn rest

theorem isSpelled_of_drain :
    ∀ u ∈ (Variant.braced.drain text).tokens, u.IsSpelled text ∧ u.kind ≠ .newline := by
  intro u hu
  rw [Variant.drain_braced] at hu
  obtain ⟨x, hx, rfl⟩ := Drain.mem_ofItems hu
  obtain ⟨c, cs, hr⟩ := Scan.exists_piece_of_mem_items hx
  exact ⟨Scan.isSpelled_of_mem_items hx, Dialect.ne_newline_of_braced hr⟩

theorem fits_ofBraces (text : String) : ofBraces.fits text (Variant.braced.drain text) = true :=
  fits_of_spelled fun u hu => .inr (isSpelled_of_drain u hu).1

/-- What is written depends on what the stream says alone. -/
theorem normalize_of_finish (h : (Variant.braced.drain text).finish = .ok t) :
    normalize text = .ok (String.join (((Variant.braced.drain text).tokens.map
      fun u => (u.kind, u.text? text)).map fun r => ofBraces.piece r.1 (r.2.getD ""))) := by
  rw [normalize, write, h, List.map_map]
  rfl

/-- A text that is made of what its own stream says is its own normal form. -/
theorem normalize_of_readings {rs : List (Kind × Option String)} {text' : String}
    (htext : text' = String.join (rs.map fun r => ofBraces.piece r.1 (r.2.getD "")))
    (hfinish : (Variant.braced.drain text').finish = .ok t)
    (hread : (Variant.braced.drain text').tokens.map (fun u => (u.kind, u.text? text')) = rs) :
    normalize text' = .ok text' := by
  rw [normalize_of_finish hfinish, hread, ← htext]

/-- Text that is written with braces again keeps its stream. -/
theorem drain_normalize (h : (Variant.braced.drain text).finish = .ok t) :
    ∃ text', normalize text = .ok text' ∧ normalize text' = .ok text' ∧
      (Variant.braced.drain text').finish = .ok (Token.empty .eof text'.utf8ByteSize) ∧
      (Variant.braced.drain text').tokens.map (fun u => (u.kind, u.text? text')) =
        (Variant.braced.drain text).tokens.map fun u => (u.kind, u.text? text) := by
  have hwrite := normalize_of_finish h
  rw [List.map_map] at hwrite
  obtain ⟨hfinish, hread⟩ := Variant.drain_braced_of_solid <|
    @solid_join (Variant.braced.drain text).tokens _ _ fun u hu =>
      solid_piece_ofBraces (isSpelled_of_drain u hu).1 (isSpelled_of_drain u hu).2
  refine ⟨_, hwrite, normalize_of_readings ?_ hfinish hread, hfinish, hread⟩
  rw [List.map_map]

/-- What was made from indentation is written with braces again as it stands. -/
theorem piece_readBack {source : String} (hu : ∀ c, brace? c ≠ some u.kind) :
    ofBraces.piece (readBack source u).1 ((readBack source u).2.getD "") =
      ofIndentation.piece u.kind (u.textIn source) := by
  unfold readBack
  split
  · rename_i hk
    rw [hk]
    rfl
  split
  · rename_i hk
    rw [hk]
    rfl
  split
  · rename_i hk
    rw [hk]
    rfl
  rename_i hi hd hn
  rw [piece, mark?_ofBraces_eq_none hu, piece, mark?, ofIndentation, if_neg hi, if_neg hd,
    if_neg hn]
  rfl

end OfBraces

/-- **The normal form of text with braces is stable.** A text whose braced stream is drained to its
end can be written with braces again: the text that comes out has the same kinds and the same texts
of tokens, and is written again as it stands. So is the braced text of every source. -/
theorem normal_form_is_stable :
    (∀ (text : String) (t : Token), (Variant.braced.drain text).finish = .ok t →
      ofBraces.fits text (Variant.braced.drain text) = true ∧
      ∃ text', normalize text = .ok text' ∧
        (Variant.braced.drain text').finish = .ok (Token.empty .eof text'.utf8ByteSize) ∧
        (Variant.braced.drain text').tokens.map (fun u => (u.kind, u.text? text')) =
          (Variant.braced.drain text).tokens.map (fun u => (u.kind, u.text? text)) ∧
        ofBraces.fits text' (Variant.braced.drain text') = true ∧
        normalize text' = .ok text') ∧
    (∀ source prepared : String, Variant.braced.prepare source = .ok prepared →
      ofBraces.fits prepared (Variant.braced.drain prepared) = true ∧
      normalize prepared = .ok prepared) := by
  constructor
  · intro text t h
    obtain ⟨text', hwrite, hstable, hfinish, hread⟩ := drain_normalize h
    exact ⟨fits_ofBraces text, text', hwrite, hfinish, hread, fits_ofBraces text', hstable⟩
  · intro source prepared h
    cases hd : (Variant.dented.drain source).finish with
    | error e =>
      rw [Variant.prepare, write, hd] at h
      cases h
    | ok t =>
      obtain ⟨-, text, hwrite, hfinish, hread⟩ := drain_write isBlank_of_mem_lineFeed hd
      obtain rfl : text = prepared := Except.ok.inj (hwrite.symm.trans h)
      refine ⟨fits_ofBraces text, normalize_of_readings ?_ hfinish hread⟩
      rw [write, hd] at hwrite
      rw [← Except.ok.inj hwrite, List.map_map]
      refine congrArg String.join (List.map_congr_left fun u hu => ?_)
      exact (piece_readBack (Variant.brace?_ne_of_mem_drain hd hu)).symm

/-- The statement of `Braces.normal_form_is_stable` for a text with a comment, a string that holds
marks, and marks without blanks between them; and for the braced text of a source. -/
theorem normal_form_is_stable_unspaced :
    normalize "if a:\x7bb==\"\x7bü;\";\x7d# c\n" =
      .ok "if a : \x7b\nb == \"\x7bü;\" ;\n\x7d\n" ∧
    normalize "if a : \x7b\nb == \"\x7bü;\" ;\n\x7d\n" =
      .ok "if a : \x7b\nb == \"\x7bü;\" ;\n\x7d\n" ∧
    Variant.braced.prepare "a\n  b" = .ok "a \x7b\nb ;\n\x7d\n" ∧
    normalize "a \x7b\nb ;\n\x7d\n" = .ok "a \x7b\nb ;\n\x7d\n" := by
  have hfinish : (Variant.braced.drain "if a:\x7bb==\"\x7bü;\";\x7d# c\n").finish =
      .ok ⟨.eof, 21, 21⟩ := by
    decide +kernel
  have hwrite : normalize "if a:\x7bb==\"\x7bü;\";\x7d# c\n" =
      .ok "if a : \x7b\nb == \"\x7bü;\" ;\n\x7d\n" := by
    decide +kernel
  have hprepare : Variant.braced.prepare "a\n  b" = .ok "a \x7b\nb ;\n\x7d\n" := by
    decide +kernel
  obtain ⟨-, text', htext, -, -, -, hstable⟩ := normal_form_is_stable.1 _ _ hfinish
  obtain rfl : _ = text' := Except.ok.inj (hwrite.symm.trans htext)
  exact ⟨hwrite, hstable, hprepare, (normal_form_is_stable.2 _ _ hprepare).2⟩

end Braces

end OffsideBench

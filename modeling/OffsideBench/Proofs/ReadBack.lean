import Mathlib.Tactic.Tauto
import OffsideBench.Proofs.Layout.Calls

/-!
# Text with braces reads back

A stream that is written with braces and lexed again gives one token for each of its tokens: the
marks of block structure in place of indentation, and every other token as it was. The pieces can
neither merge nor fall apart, since each token matches the pattern of its kind and stands in front
of a space, and a mark is a token of its own wherever it stands.

Main statement: `Braces.drain_write`.
-/

namespace OffsideBench

open Token (Kind)

/-- The span of a token cuts a text out of the source that matches the pattern of its kind. -/
def Token.IsSpelled (source : String) (t : Token) : Prop :=
  ∃ cs, Spells t.kind cs ∧ t.text? source = some (String.ofList cs)

namespace Braces

/-- Block structure by indentation, with what is written behind a mark. -/
def withSeparator (separator : String) : Braces := ⟨.indent, .dedent, .newline, separator⟩

/-- What a token is read as once its stream was written with braces: its kind and its text. -/
def readBack (source : String) (t : Token) : Kind × Option String :=
  if t.kind = .indent then (.lbrace, some "\x7b")
  else if t.kind = .dedent then (.rbrace, some "\x7d")
  else if t.kind = .newline then (.semi, some ";")
  else (t.kind, t.text? source)

/-- A line feed is a blank of text with braces. -/
theorem isBlank_of_mem_lineFeed : ∀ x ∈ "\n".toList, Dialect.braced.isBlank x = true := by
  intro x hx
  obtain rfl : x = '\n' := List.mem_singleton.1 hx
  rfl

section Pieces

variable {source separator : String} {t : Token}

/-- A mark is a token of its own, whatever stands behind it. -/
theorem solid_mark {c : Char} {k : Kind} {mark : String} (h : brace? c = some k)
    (hm : mark.toList = [c]) (hs : ∀ x ∈ separator.toList, Dialect.braced.isBlank x = true)
    (rest : List Char) :
    (Dialect.braced.solid ((mark ++ separator).toList ++ rest)).map Stretch.reading =
      some (k, some mark) :: (Dialect.braced.solid rest).map Stretch.reading := by
  have hmark : String.ofList [c] = mark := by rw [← hm, String.ofList_toList]
  rw [String.toList_append, hm, List.append_assoc, List.singleton_append,
    Dialect.solid_cons (by rw [Dialect.piece_brace h]; simp), Dialect.piece_brace h]
  simp only [Dialect.solid_blanks hs, List.map_cons, Stretch.reading, hmark]

/-- A token that is copied in front of a space is a token of its own. -/
theorem solid_copy (ht : t.IsSpelled source) (hn : t.kind ≠ .newline) (rest : List Char) :
    (Dialect.braced.solid ((t.textIn source ++ " ").toList ++ rest)).map Stretch.reading =
      some (t.kind, t.text? source) :: (Dialect.braced.solid rest).map Stretch.reading := by
  obtain ⟨cs, hcs, htext⟩ := ht
  obtain ⟨c, cs, rfl⟩ := List.exists_cons_of_ne_nil hcs.ne_nil
  have hpiece := hcs.piece_braced hn rest
  have hspace : Dialect.braced.isBlank ' ' = true := rfl
  rw [Token.textIn, htext, Option.getD_some, String.toList_append, String.toList_ofList,
    List.append_assoc]
  show (Dialect.braced.solid (c :: (cs ++ ' ' :: rest))).map Stretch.reading = _
  rw [Dialect.solid_cons (by rw [hpiece]; simp), hpiece]
  simp only [Dialect.solid_blank hspace, List.map_cons, Stretch.reading]

/-- What is written for a token is read back as one token. -/
theorem solid_piece (hs : ∀ x ∈ separator.toList, Dialect.braced.isBlank x = true)
    (ht : t.kind.isContent = true → t.IsSpelled source) (he : t.kind ≠ .eof) (rest : List Char) :
    (Dialect.braced.solid
        (((withSeparator separator).piece t.kind (t.textIn source)).toList ++ rest)).map
          Stretch.reading =
      some (readBack source t) :: (Dialect.braced.solid rest).map Stretch.reading := by
  unfold piece mark? readBack withSeparator
  by_cases hi : t.kind = .indent
  · simp only [hi, if_pos]
    exact solid_mark rfl rfl hs rest
  by_cases hd : t.kind = .dedent
  · simp only [hd]
    exact solid_mark rfl rfl hs rest
  by_cases hn : t.kind = .newline
  · simp only [hn]
    exact solid_mark rfl rfl hs rest
  have hk : t.kind.isContent = true := by simp [Kind.isContent, hi, hd, hn, he]
  simp only [hi, hd, hn, if_false]
  exact solid_copy (ht hk) hn rest

end Pieces

/-- A row of tokens is read back token by token, if what is written for each of them is read back as
one token. -/
theorem solid_join {ts : List Token} {piece : Token → String} {read : Token → Kind × Option String}
    (h : ∀ t ∈ ts, ∀ rest, (Dialect.braced.solid ((piece t).toList ++ rest)).map Stretch.reading =
      some (read t) :: (Dialect.braced.solid rest).map Stretch.reading) :
    (Dialect.braced.solid (String.join (ts.map piece)).toList).map Stretch.reading =
      (ts.map read).map some := by
  induction ts with
  | nil => simp
  | cons t ts ih =>
    rw [List.map_cons, String.join_cons, String.toList_append, h t List.mem_cons_self,
      ih fun u hu => h u (List.mem_cons_of_mem _ hu)]
    rfl

end Braces

/-! ## Streams that were read -/

theorem Scan.isSpelled_of_mem_items {d : Dialect} {source : String} {x : Lexeme}
    (h : .ok x ∈ (Scan.ofText d source).items) : x.token.IsSpelled source := by
  obtain ⟨before, text, after, hsource, hs, hx⟩ := @Scan.mem_items d [] source.toList x h
  refine ⟨text, hs, ?_⟩
  have ht := Lexeme.text?_behind before x.kind text after
  rw [← hsource, String.ofList_toList] at ht
  rw [hx]
  exact ht

/-- The content tokens of a stream that is drained without a fault match the patterns of their
kinds, with the texts that their spans cut out. -/
theorem Variant.isSpelled_of_mem_drain {v : Variant} {source : String} {t u : Token}
    (h : (v.drain source).finish = .ok u) (ht : t ∈ (v.drain source).tokens)
    (hk : t.kind.isContent = true) : t.IsSpelled source := by
  cases v with
  | dented =>
    obtain ⟨-, xs, hxs, hcontent⟩ := Layout.content_of_drain h
    have hmem : t ∈ (xs.map Lexeme.token).filter (·.kind.isContent) :=
      hcontent ▸ List.mem_filter.2 ⟨ht, hk⟩
    obtain ⟨x, hx, rfl⟩ := List.mem_map.1 (List.mem_filter.1 hmem).1
    have hitem : .ok x ∈ (Scan.ofText .dented source).items := by
      rw [hxs]
      exact List.mem_map_of_mem hx
    exact Scan.isSpelled_of_mem_items hitem
  | rawDented =>
    rw [drain_rawDented] at ht
    obtain ⟨x, hx, rfl⟩ := Drain.mem_ofItems ht
    exact Scan.isSpelled_of_mem_items hx
  | braced =>
    rw [drain_braced] at ht
    obtain ⟨x, hx, rfl⟩ := Drain.mem_ofItems ht
    exact Scan.isSpelled_of_mem_items hx

theorem exists_eq_map_ok_of_toOption {β : Type} {f : Lexeme → β}
    {items : List (Except LexError Lexeme)} {bs : List β}
    (h : items.map (fun item => item.toOption.map f) = bs.map some) :
    ∃ xs : List Lexeme, items = xs.map .ok ∧ xs.map f = bs := by
  induction items generalizing bs with
  | nil => exact ⟨[], rfl, (List.map_eq_nil_iff.1 h.symm).symm⟩
  | cons item items ih =>
    cases bs with
    | nil => cases h
    | cons b bs =>
      obtain ⟨hb, hbs⟩ := List.cons.inj h
      obtain ⟨xs, rfl, rfl⟩ := ih hbs
      cases item with
      | error e => cases hb
      | ok x => exact ⟨x :: xs, rfl, by rw [List.map_cons, Option.some.inj hb]⟩

/-- A text of which all stretches are tokens is drained to its end, and its stream holds them. -/
theorem Variant.drain_braced_of_solid {text : String} {rs : List (Kind × Option String)}
    (h : (Dialect.braced.solid text.toList).map Stretch.reading = rs.map some) :
    (braced.drain text).finish = .ok (Token.empty .eof text.utf8ByteSize) ∧
      (braced.drain text).tokens.map (fun u => (u.kind, u.text? text)) = rs := by
  have hitems := Scan.map_reading_items .braced [] text.toList
  rw [List.nil_append, String.ofList_toList, h] at hitems
  obtain ⟨xs, hxs, hread⟩ := exists_eq_map_ok_of_toOption hitems
  have hscan : (Scan.ofText .braced text).items = xs.map .ok := hxs
  rw [drain_braced, hscan, Drain.ofItems_map_ok, Scan.eof_ofText, List.map_map, ← hread]
  exact ⟨rfl, rfl⟩

/-- A stream fits its text if each of its tokens is written as a mark or matches its pattern. -/
theorem Braces.fits_of_spelled {b : Braces} {source : String} {d : Drain}
    (h : ∀ u ∈ d.tokens, (b.mark? u.kind).isSome = true ∨ u.IsSpelled source) :
    b.fits source d = true := by
  refine List.all_eq_true.2 fun u hu => ?_
  rcases h u hu with hm | ⟨cs, -, htext⟩
  · rw [hm]
    rfl
  · rw [Token.fits, htext]
    exact Bool.or_true _

/-- A stream that is drained without a fault, written with braces and some blanks behind each mark,
is read back: without a fault, and with one token for each of its tokens. -/
theorem Braces.drain_write {v : Variant} {source separator : String} {t : Token}
    (hs : ∀ x ∈ separator.toList, Dialect.braced.isBlank x = true)
    (h : (v.drain source).finish = .ok t) :
    (withSeparator separator).fits source (v.drain source) = true ∧
      ∃ text, (withSeparator separator).write source (v.drain source) = .ok text ∧
        (Variant.braced.drain text).finish = .ok (Token.empty .eof text.utf8ByteSize) ∧
        (Variant.braced.drain text).tokens.map (fun u => (u.kind, u.text? text)) =
          (v.drain source).tokens.map (readBack source) := by
  have ht : ∀ u ∈ (v.drain source).tokens,
      (u.kind.isContent = true → u.IsSpelled source) ∧ u.kind ≠ .eof := fun u hu =>
    ⟨Variant.isSpelled_of_mem_drain h hu, Reader.kind_ne_eof_of_mem_drain hu⟩
  refine ⟨fits_of_spelled fun u hu => ?_, _, ?_,
    Variant.drain_braced_of_solid (solid_join fun u hu => solid_piece hs (ht u hu).1 (ht u hu).2)⟩
  · by_cases hk : u.kind.isContent = true
    · exact .inr ((ht u hu).1 hk)
    · have hmark : u.kind = .newline ∨ u.kind = .indent ∨ u.kind = .dedent := by
        have := (ht u hu).2
        simp only [Kind.isContent, Bool.and_eq_true, bne_iff_ne] at hk
        tauto
      rcases hmark with e | e | e <;> rw [e] <;> exact .inl rfl
  · rw [write, h]
    rfl

end OffsideBench

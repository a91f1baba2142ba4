import OffsideBench.Proofs.Layout.Agreement

/-!
# Line ends

A carriage return in front of a line feed belongs to the line break. Piece by piece a text is read
the same with it and without: the dented form takes it into the token of the line break, the braced
form takes it for a blank, and comments and strings that are not closed end in front of it. On the
way to the next line it adds a column that the line feed takes back.

Main statements: `WithReturns.piece`, the pieces in front of two such texts are the same but for
carriage returns; and `line_ends_do_not_matter`.
-/

namespace OffsideBench

open Token (Kind)

/-- The second text is the first one, which has no carriage returns, with a carriage return in front
of some of its line feeds. -/
inductive WithReturns : List Char → List Char → Prop where
  /-- The empty text. -/
  | nil : WithReturns [] []
  /-- A character that stays as it is, maybe a line feed. -/
  | char {c : Char} {cs cs' : List Char} (hc : c ≠ '\r') (h : WithReturns cs cs') :
    WithReturns (c :: cs) (c :: cs')
  /-- A line feed that gets a carriage return. -/
  | crlf {cs cs' : List Char} (h : WithReturns cs cs') :
    WithReturns ('\n' :: cs) ('\r' :: '\n' :: cs')

/-- Two pieces are the same but for carriage returns. -/
structure Piece.SameBut (p p' : Piece) : Prop where
  role : p'.role = p.role
  text : WithReturns p.text p'.text
  rest : WithReturns p.rest p'.rest

namespace WithReturns

variable {cs cs' : List Char}

theorem append (h : WithReturns cs cs') {ds ds' : List Char} (hd : WithReturns ds ds') :
    WithReturns (cs ++ ds) (cs' ++ ds') := by
  induction h with
  | nil => exact hd
  | char hc _ ih => exact .char hc ih
  | crlf _ ih => exact .crlf ih

theorem eq_of_not_mem (h : WithReturns cs cs') (hn : '\n' ∉ cs) : cs' = cs := by
  induction h with
  | nil => rfl
  | char hc _ ih => rw [ih fun hm => hn (List.mem_cons_of_mem _ hm)]
  | crlf => exact absurd List.mem_cons_self hn

theorem width_past (h : WithReturns cs cs') {p p' : Position} (hp : p'.width = p.width) :
    (p'.past cs').width = (p.past cs).width := by
  induction h generalizing p p' with
  | nil => exact hp
  | @char c _ _ _ _ ih => exact ih (Position.width_next hp c)
  -- The carriage return widens the line, and the line feed behind it starts the next one.
  | crlf _ ih => exact ih rfl

/-! ## Pieces -/

section Runs

variable {p : Char → Bool} (h : WithReturns cs cs') (hp : p '\r' = p '\n')

include h hp

/-- Runs of characters end at the same places if they make no difference between the characters of
line breaks. -/
theorem takeWhile : WithReturns (cs.takeWhile p) (cs'.takeWhile p) := by
  induction h with
  | nil => exact .nil
  | @char c cs cs' hc _ ih =>
    rw [List.takeWhile_cons, List.takeWhile_cons]
    split
    · exact .char hc ih
    · exact .nil
  | crlf _ ih =>
    rw [List.takeWhile_cons, List.takeWhile_cons, List.takeWhile_cons, hp]
    split
    · exact .crlf ih
    · exact .nil

theorem dropWhile : WithReturns (cs.dropWhile p) (cs'.dropWhile p) := by
  induction h with
  | nil => exact .nil
  | @char c cs cs' hc h ih =>
    rw [List.dropWhile_cons, List.dropWhile_cons]
    split
    · exact ih
    · exact .char hc h
  | crlf h ih =>
    rw [List.dropWhile_cons, List.dropWhile_cons, List.dropWhile_cons, hp]
    split
    · exact ih
    · exact .crlf h

theorem run {c : Char} (hc : c ≠ '\r') (role : Piece.Role) :
    (Piece.run role p c cs).SameBut (Piece.run role p c cs') :=
  ⟨rfl, .char hc (h.takeWhile hp), h.dropWhile hp⟩

end Runs

theorem takeWhile_eq (h : WithReturns cs cs') {p : Char → Bool} (hn : p '\n' = false)
    (hr : p '\r' = false) : cs'.takeWhile p = cs.takeWhile p := by
  refine (h.takeWhile (hr.trans hn.symm)).eq_of_not_mem fun hm => ?_
  rw [List.mem_takeWhile_imp hm] at hn
  cases hn

theorem word (h : WithReturns cs cs') {c : Char} (hc : c ≠ '\r') :
    (Piece.word c cs).SameBut (Piece.word c cs') := by
  have htext := h.takeWhile_eq (p := isWordPart) rfl rfl
  refine ⟨?_, .char hc (h.takeWhile rfl), h.dropWhile rfl⟩
  rw [Piece.word, Piece.word, htext]

theorem cons_iff (h : WithReturns cs cs') {c : Char} (hn : c ≠ '\n') (hr : c ≠ '\r') :
    (∃ ds, cs = c :: ds) ↔ ∃ ds, cs' = c :: ds := by
  cases h with
  | nil => exact Iff.rfl
  | char => simp
  | crlf => simp [hn.symm, hr.symm]

theorem quoted (h : WithReturns cs cs') : (Piece.quoted cs).SameBut (Piece.quoted cs') := by
  have htext : WithReturns ('"' :: cs.takeWhile isStringPart) ('"' :: cs'.takeWhile isStringPart) :=
    .char (by decide) (h.takeWhile rfl)
  have hrest := h.dropWhile (p := isStringPart) rfl
  have hclose := hrest.cons_iff (c := '"') (by decide) (by decide)
  by_cases hq : ∃ rest, cs.dropWhile isStringPart = '"' :: rest
  · obtain ⟨rest, hd⟩ := hq
    obtain ⟨rest', hd'⟩ := hclose.1 ⟨rest, hd⟩
    rw [hd, hd'] at hrest
    unfold Piece.quoted
    rw [hd, hd']
    cases hrest with
    | char hc hr => exact ⟨rfl, htext.append (.char hc .nil), hr⟩
  · rw [Piece.quoted_of_not_close fun rest hd => hq ⟨rest, hd⟩,
      Piece.quoted_of_not_close fun rest hd => hq (hclose.2 ⟨rest, hd⟩)]
    exact ⟨rfl, htext, hrest⟩

theorem equals (h : WithReturns cs cs') : (Piece.equals cs).SameBut (Piece.equals cs') := by
  have hone : WithReturns ['='] ['='] := .char (by decide) .nil
  cases h with
  | nil => exact ⟨rfl, hone, .nil⟩
  | crlf h => exact ⟨rfl, hone, .crlf h⟩
  | @char c cs cs' hc h =>
    unfold Piece.equals
    by_cases he : c = '='
    · subst he
      exact ⟨rfl, hone.append hone, h⟩
    · split
      · rename_i hd
        exact absurd (List.cons.inj hd).1 he
      · split
        · rename_i hd
          exact absurd (List.cons.inj hd).1 he
        · exact ⟨rfl, hone, .char hc h⟩

/-- The run of line breaks and indentation goes on as far in both texts. -/
theorem breakRun (h : WithReturns cs cs') :
    WithReturns (Piece.breakRun cs) (Piece.breakRun cs') ∧
      WithReturns (cs.drop (Piece.breakRun cs).length)
        (cs'.drop (Piece.breakRun cs').length) := by
  have hcons : ∀ {c : Char} (ds : List Char), c ≠ '\r' → Piece.breakRun (c :: ds) =
      if c = '\n' ∨ isIndentBlank c then c :: Piece.breakRun ds else [] := by
    intro c ds hc
    rw [Piece.breakRun]
    rintro ds' rfl
    exact absurd rfl hc
  induction h with
  | nil => exact ⟨.nil, .nil⟩
  | @char c cs cs' hc h ih =>
    rw [hcons cs hc, hcons cs' hc]
    split
    · exact ⟨.char hc ih.1, ih.2⟩
    · exact ⟨.nil, .char hc h⟩
  | @crlf cs cs' h ih =>
    rw [hcons cs (by decide), Piece.breakRun, if_pos (.inl rfl)]
    exact ⟨.crlf ih.1, ih.2⟩

theorem newline (h : WithReturns cs cs') {text text' : List Char} (ht : WithReturns text text') :
    (Piece.newline text cs).SameBut (Piece.newline text' cs') :=
  ⟨rfl, ht.append h.breakRun.1, h.breakRun.2⟩

theorem single (h : WithReturns cs cs') {c : Char} (hc : c ≠ '\r') (role : Piece.Role) :
    (⟨role, [c], cs⟩ : Piece).SameBut ⟨role, [c], cs'⟩ := ⟨rfl, .char hc .nil, h⟩

/-- The pieces in front of two texts that are the same but for carriage returns are so as well. -/
theorem piece {c c' : Char} (h : WithReturns (c :: cs) (c' :: cs')) (d : Dialect) :
    (d.piece c cs).SameBut (d.piece c' cs') := by
  have hblank : d.isBlank '\r' = d.isBlank '\n' := by cases d <;> rfl
  cases h with
  | char hc h =>
    unfold Dialect.piece
    by_cases hb : d.isBlank c = true
    · simp only [if_pos hb]
      exact h.run hblank hc _
    by_cases hs : c = '#'
    · simp only [if_neg hb, if_pos hs]
      exact h.run rfl hc _
    by_cases hw : isWordStart c = true
    · simp only [if_neg hb, if_neg hs, if_pos hw]
      exact h.word hc
    by_cases hd : c.isDigit = true
    · simp only [if_neg hb, if_neg hs, if_neg hw, if_pos hd]
      exact h.run rfl hc _
    by_cases hq : c = '"'
    · simp only [if_neg hb, if_neg hs, if_neg hw, if_neg hd, if_pos hq]
      exact h.quoted
    by_cases he : c = '='
    · simp only [if_neg hb, if_neg hs, if_neg hw, if_neg hd, if_neg hq, if_pos he]
      exact h.equals
    by_cases hn : c = '\n'
    · simp only [if_neg hb, if_neg hs, if_neg hw, if_neg hd, if_neg hq, if_neg he, if_pos hn]
      exact h.newline (.char (by decide) .nil)
    simp only [if_neg hb, if_neg hs, if_neg hw, if_neg hd, if_neg hq, if_neg he, if_neg hn,
      if_neg hc]
    cases d.punctuation? c with
    | none => exact h.single hc _
    | some k => exact h.single hc _
  -- Here the forms differ: one takes the carriage return into the line break, one for a blank.
  | crlf h =>
    cases d with
    | dented => exact h.newline (.crlf .nil)
    | braced =>
      exact ⟨rfl, .crlf (h.takeWhile (p := Dialect.braced.isBlank) rfl),
        h.dropWhile (p := Dialect.braced.isBlank) rfl⟩

theorem exists_cons {c : Char} (h : WithReturns (c :: cs) cs') : ∃ c' ds', cs' = c' :: ds' := by
  cases h with
  | char => exact ⟨_, _, rfl⟩
  | crlf => exact ⟨_, _, rfl⟩

/-! ## Streams -/

/-- Two texts that are the same but for carriage returns are cut alike: no content holds a line
feed. -/
theorem cutsAlike (d : Dialect) : d.CutsAlike WithReturns where
  nil := by
    rintro _ ⟨⟩
    rfl
  cons := by
    intro c cs cs' h
    obtain ⟨c', ds', rfl⟩ := h.exists_cons
    have hpiece := h.piece d
    refine ⟨c', ds', rfl, ⟨hpiece.role, ?_, hpiece.text.width_past⟩, hpiece.rest⟩
    intro k hk hn
    exact hpiece.text.eq_of_not_mem ((d.spells_piece c cs hk).not_mem_newline hn)

end WithReturns

/-- **Line ends do not matter.** A text without carriage returns gets one in front of some of its
line feeds. Then each of its three streams, up to the end or to the first fault, has the same kinds
and the same texts of content tokens, and ends in the same way: with the end of the text, or with
the same fault but for its place, which keeps the width. So does the making of its braced text,
which is the same if there is one. -/
theorem line_ends_do_not_matter {source source' : String}
    (h : WithReturns source.toList source'.toList) :
    (∀ v : Variant, (v.drain source').said source' = (v.drain source).said source) ∧
      (Variant.braced.prepare source').mapError LexError.unplaced =
        (Variant.braced.prepare source).mapError LexError.unplaced := by
  have hitems : ∀ d : Dialect, Scan.ItemsAlike source source' (Scan.ofText d source).items
      (Scan.ofText d source').items := fun d =>
    @Dialect.CutsAlike.itemsAlike source source' [] [] d _ (WithReturns.cutsAlike d) _ _ h rfl rfl
      rfl
  have hfinish : (Scan.ofText .dented source').finish.width =
      (Scan.ofText .dented source).finish.width := by
    rw [Scan.ofText, Scan.ofText, Scan.finish_ofChars, Scan.finish_ofChars]
    exact h.width_past rfl
  have hdented := Variant.said_drain_dented (hitems .dented) hfinish
  refine ⟨?_, Variant.prepare_braced_of_said hdented⟩
  intro v
  cases v with
  | dented => exact hdented
  | rawDented =>
    rw [Variant.drain_rawDented, Variant.drain_rawDented]
    exact Drain.said_ofItems (hitems .dented)
  | braced =>
    rw [Variant.drain_braced, Variant.drain_braced]
    exact Drain.said_ofItems (hitems .braced)

/-- The statement of `line_ends_do_not_matter` for carriage returns behind a comment and behind the
blanks of a blank line, and one in front of a line that lacks its place. -/
theorem line_ends_do_not_matter_in_a_fault :
    (Variant.dented.drain "a: # b\r\n\n \r\n\tc\r\n d").said "a: # b\r\n\n \r\n\tc\r\n d" =
      ([(.ident, some "a"), (.colon, some ":"), (.indent, none), (.ident, some "c")],
        .error (.inconsistentDedent 0 1)) := by
  have h : WithReturns "a: # b\n\n \n\tc\n d".toList
      "a: # b\r\n\n \r\n\tc\r\n d".toList := by
    repeat first | exact .nil | refine .crlf ?_ | refine .char (by decide) ?_
  rw [(line_ends_do_not_matter h).1 .dented]
  decide +kernel

end OffsideBench

import OffsideBench.Proofs.Rows

/-!
# The two forms share one grammar

Line breaks are tokens of the dented form and blanks of the braced one, so behind a line break the
two scanners are at different places of the text. They meet again at the next character that is no
blank, and from there on find the same piece, but for what only one of the forms has: braces and
semicolons, and a carriage return that no line feed follows.

Main statement: `Variant.forms_share_grammar`.
-/

namespace OffsideBench

open Token (Kind)

/-- Each carriage return of a text stands in front of a line feed. -/
def ReturnsFeed (cs : List Char) : Prop :=
  ∀ before after, cs = before ++ '\r' :: after → after.head? = some '\n'

theorem ReturnsFeed.of_append {as bs : List Char} (h : ReturnsFeed (as ++ bs)) :
    ReturnsFeed bs := by
  intro before after hb
  refine h (as ++ before) after ?_
  rw [hb, List.append_assoc]

theorem ReturnsFeed.of_getElem? {cs : List Char}
    (h : ∀ i : Nat, cs[i]? = some '\r' → cs[i + 1]? = some '\n') : ReturnsFeed cs := by
  rintro before after rfl
  have hnext := h before.length (by simp)
  rw [List.getElem?_append_right (by omega)] at hnext
  simpa [List.head?_eq_getElem?] using hnext

namespace Dialect

/-! ## The pieces of the two forms -/

/-- How the piece at the front of a text in the dented form stands to the one in the braced form. -/
inductive Compares (c : Char) (cs : List Char) : Prop where
  /-- Both forms have the same piece. -/
  | same (hp : Dialect.braced.piece c cs = Dialect.dented.piece c cs)
      (hk : (Dialect.dented.piece c cs).role ≠ .token .newline)
  /-- The braced form has nothing but blanks there. -/
  | blanks (hr : (Dialect.dented.piece c cs).role = .gap ∨
        (Dialect.dented.piece c cs).role = .token .newline)
      (hb : ∀ x ∈ (Dialect.dented.piece c cs).text, Dialect.braced.isBlank x = true)
  /-- The text begins with a carriage return alone. -/
  | lone (hr : (Dialect.dented.piece c cs).role = .fault) (hc : c = '\r')
      (hcs : cs.head? ≠ some '\n')
  /-- The text begins with a token that only the braced form has. -/
  | brace (hr : (Dialect.dented.piece c cs).role = .fault) {k : Kind} (hk : brace? c = some k)

theorem isBlank_braced_of_dented {c : Char} (h : Dialect.dented.isBlank c = true) :
    Dialect.braced.isBlank c = true := by
  have hc : (isIndentBlank c || c == '\x0c') = true := by simpa [isBlank] using h
  rw [isBlank, hc, Bool.true_or]

/-- What is read along with a line break is blank in the braced form. -/
theorem isBlank_braced_of_mem_breakRun {cs : List Char} {x : Char} (hx : x ∈ Piece.breakRun cs) :
    Dialect.braced.isBlank x = true := by
  fun_induction Piece.breakRun cs with
  | case1 cs ih =>
    rcases List.mem_cons.1 hx with rfl | hx
    · rfl
    rcases List.mem_cons.1 hx with rfl | hx
    · rfl
    · exact ih hx
  | case2 c cs _ hc ih =>
    rcases List.mem_cons.1 hx with rfl | hx
    · rcases hc with rfl | hc
      · rfl
      · exact Scan.isBlank_of_isIndentBlank hc _
    · exact ih hx
  | case3 => cases hx
  | case4 => cases hx

theorem isBlank_braced_of_mem_newline (text : List Char) {cs : List Char} {x : Char}
    (ht : ∀ c ∈ text, isBreak c = true) (hx : x ∈ (Piece.newline text cs).text) :
    Dialect.braced.isBlank x = true := by
  rcases List.mem_append.1 hx with hx | hx
  · rcases eq_of_isBreak (ht x hx) with rfl | rfl <;> rfl
  · exact isBlank_braced_of_mem_breakRun hx

/-- Line breaks begin with a character of line breaks. -/
theorem isBreak_of_newline {c : Char} {cs : List Char}
    (h : (Dialect.dented.piece c cs).role = .token .newline) : isBreak c = true := by
  have hfront := Dialect.dented.piece_text_append_rest c cs
  have hbreaks := (spells_piece .dented c cs h).lineBreaks rfl
  generalize (Dialect.dented.piece c cs).text = text at hfront hbreaks
  cases hbreaks with
  | last hcr =>
    rcases hcr with rfl | rfl <;> exact (List.cons.inj hfront).1 ▸ rfl
  | more hcr =>
    rcases hcr with rfl | rfl <;> exact (List.cons.inj hfront).1 ▸ rfl

/-- The two forms differ in blanks, in lone carriage returns and in braces only. -/
theorem compares (c : Char) (cs : List Char) : Compares c cs := by
  by_cases hb : Dialect.dented.isBlank c = true
  · have hpiece := piece_blank hb cs
    refine .blanks (.inl (by rw [hpiece]; rfl)) fun x hx => ?_
    rw [hpiece] at hx
    rcases List.mem_cons.1 hx with rfl | hx
    · exact isBlank_braced_of_dented hb
    · exact isBlank_braced_of_dented (List.mem_takeWhile_imp hx)
  by_cases hn : c = '\n'
  · subst hn
    refine .blanks (.inr rfl) fun x hx => ?_
    exact isBlank_braced_of_mem_newline ['\n'] (by simp [isBreak]) hx
  by_cases hr : c = '\r'
  · subst hr
    by_cases hcs : cs.head? = some '\n'
    · obtain ⟨tail, rfl⟩ := List.head?_eq_some_iff.1 hcs
      refine .blanks (.inr rfl) fun x hx => ?_
      exact isBlank_braced_of_mem_newline ['\r', '\n'] (by simp [isBreak]) hx
    · exact .lone (by rw [piece_return hcs]) rfl hcs
  -- No other character is blank in the braced form.
  have hbraced : ¬ Dialect.braced.isBlank c = true := by
    intro h
    rcases Dialect.braced.eq_of_isBlank h with rfl | rfl | rfl | rfl | rfl
    · exact hb rfl
    · exact hb rfl
    · exact hb rfl
    · exact hn rfl
    · exact hr rfl
  by_cases hbrace : ∃ k, brace? c = some k
  · obtain ⟨k, hk⟩ := hbrace
    refine .brace ?_ hk
    rcases eq_of_brace? hk with rfl | rfl | rfl <;> rfl
  have hnone : brace? c = none := by
    cases hk : brace? c with
    | none => rfl
    | some k => exact absurd ⟨k, hk⟩ hbrace
  have hpunctuation : Dialect.braced.punctuation? c = Dialect.dented.punctuation? c := by
    simp only [punctuation?, hnone]
    cases operator? c <;> rfl
  refine .same ?_ fun hk => ?_
  · unfold piece
    simp only [if_neg hb, if_neg hbraced, hpunctuation]
  · rcases eq_of_isBreak (isBreak_of_newline hk) with rfl | rfl
    · exact hn rfl
    · exact hr rfl

end Dialect

/-! ## The items of the two forms -/

namespace Scan

/-- What the braced form reads of the first piece of the dented form, where that is blank. -/
theorem ofChars_braced_of_blanks {c : Char} {cs : List Char}
    (h : ∀ x ∈ (Dialect.dented.piece c cs).text, Dialect.braced.isBlank x = true) (p : Position) :
    Scan.ofChars .braced p (c :: cs) =
      Scan.ofChars .braced (p.past (Dialect.dented.piece c cs).text)
        (Dialect.dented.piece c cs).rest := by
  conv => lhs; rw [← Dialect.dented.piece_text_append_rest c cs]
  exact ofChars_blanks h p _

/-- A text without faults in the dented form has the same content in the braced one. -/
theorem items_braced_of_dented (p : Position) {cs : List Char}
    (h : ∀ e, .error e ∉ (Scan.ofChars .dented p cs).items) :
    (Scan.ofChars .braced p cs).items = content p cs := by
  fun_induction Dialect.dented.stretches cs generalizing p with
  | case1 => rw [ofChars_nil, content_nil]
  | case2 c cs ih =>
    have hitems := congrArg Scan.items (ofChars_cons .dented p c cs)
    simp only at hitems
    have hrest : ∀ e, .error e ∉ (Scan.ofChars .dented (p.past (Dialect.dented.piece c cs).text)
        (Dialect.dented.piece c cs).rest).items := by
      intro e he
      exact h e (hitems ▸ List.mem_append_right _ he)
    have hfault : (Dialect.dented.piece c cs).role ≠ .fault := by
      intro hr
      refine h (.unrecognized p.offset) ?_
      rw [hitems, hr]
      exact List.mem_cons_self
    rcases Dialect.compares c cs with ⟨hp, hk⟩ | ⟨hr, hb⟩ | ⟨hr, -, -⟩ | ⟨hr, -⟩
    · rw [ofChars_cons, hp, content_cons]
      simp only
      rw [ih _ hrest]
      refine congrArg (· ++ _) (List.filter_eq_self.2 ?_).symm
      cases hr : (Dialect.dented.piece c cs).role with
      | gap => simp [item?]
      | fault => exact absurd hr hfault
      | token k =>
        rw [hr] at hk
        simpa [item?, isNewline] using hk
    · rw [ofChars_braced_of_blanks hb, ih _ hrest]
      rcases hr with hr | hr
      · exact (content_of_gap hr).symm
      · exact (content_of_newline hr).symm
    · exact absurd hr hfault
    · exact absurd hr hfault

/-- A text without faults in the braced form has none in the dented one either, if it has no token
of its own and no lone carriage return. -/
theorem no_fault_of_braced (p : Position) {cs : List Char} (hcr : ReturnsFeed cs)
    (h : ∀ item ∈ (Scan.ofChars .braced p cs).items,
      ∃ x, item = .ok x ∧ ∀ c, brace? c ≠ some x.kind) (e : LexError) :
    .error e ∉ (Scan.ofChars .dented p cs).items := by
  fun_induction Dialect.dented.stretches cs generalizing p with
  | case1 => simp
  | case2 c cs ih =>
    have hfeed : ReturnsFeed (Dialect.dented.piece c cs).rest := by
      rw [← Dialect.dented.piece_text_append_rest c cs] at hcr
      exact hcr.of_append
    rw [ofChars_cons]
    rcases Dialect.compares c cs with ⟨hp, -⟩ | ⟨hr, hb⟩ | ⟨-, rfl, hcs⟩ | ⟨-, hk⟩
    · rw [ofChars_cons, hp] at h
      refine fun hmem => (List.mem_append.1 hmem).elim (fun he => ?_) ?_
      · obtain ⟨x, hx, -⟩ := h _ (List.mem_append_left _ he)
        cases hx
      · exact ih _ hfeed fun item hi => h item (List.mem_append_right _ hi)
    · rw [ofChars_braced_of_blanks hb] at h
      refine fun hmem => (List.mem_append.1 hmem).elim (fun he => ?_) (ih _ hfeed h)
      rcases hr with hr | hr <;> rw [hr] at he <;> simp [item?] at he
    · exact absurd (hcr [] cs rfl) hcs
    · rw [ofChars_cons, Dialect.piece_brace hk] at h
      obtain ⟨x, hx, hkind⟩ := h _ (List.mem_append_left _ List.mem_cons_self)
      cases hx
      exact absurd hk (hkind c)

end Scan

namespace Variant

/-- **The two forms share one grammar.** A text whose stream with plain line breaks is read to its
end has in the braced form just the other tokens of that stream, at the same places; and a text
whose braced stream is read to its end is read to its end with plain line breaks too, if it has no
braces, no semicolons and no carriage returns but in front of a line feed. -/
theorem forms_share_grammar (source : String) :
    (∀ t, (rawDented.drain source).finish = .ok t →
      (braced.drain source).finish = .ok (Token.empty .eof source.utf8ByteSize) ∧
      (braced.drain source).tokens =
        (rawDented.drain source).tokens.filter (·.kind ≠ .newline)) ∧
    (∀ t, (braced.drain source).finish = .ok t →
      (∀ u ∈ (braced.drain source).tokens, u.kind ∉ [.lbrace, .rbrace, .semi]) →
      (∀ i : Nat, source.toList[i]? = some '\r' → source.toList[i + 1]? = some '\n') →
      (rawDented.drain source).finish = .ok (Token.empty .eof source.utf8ByteSize)) := by
  constructor
  · intro t h
    rw [drain_rawDented] at h
    obtain ⟨xs, hxs⟩ := Drain.eq_map_ok_of_finish h
    have hno : ∀ e, .error e ∉ (Scan.ofText .dented source).items := by
      intro e he
      rw [hxs] at he
      obtain ⟨x, -, hx⟩ := List.mem_map.1 he
      cases hx
    have hbraced : (Scan.ofText .braced source).items =
        (xs.filter (·.kind ≠ .newline)).map .ok := by
      have hitems := Scan.items_braced_of_dented .origin hno
      rw [Scan.content] at hitems
      refine hitems.trans ?_
      rw [show (Scan.ofChars .dented .origin source.toList).items = xs.map .ok from hxs,
        List.filter_map]
      refine congrArg (List.map _) (List.filter_congr fun x _ => ?_)
      by_cases hx : x.kind = .newline <;> simp [Scan.isNewline, hx]
    rw [drain_rawDented, drain_braced, hxs, hbraced, Drain.ofItems_map_ok, Drain.ofItems_map_ok,
      Scan.eof_ofText]
    refine ⟨rfl, ?_⟩
    rw [List.filter_map]
    rfl
  · intro t h hkinds hcr
    rw [drain_braced] at h hkinds
    obtain ⟨xs, hxs⟩ := Drain.eq_map_ok_of_finish h
    rw [hxs, Drain.ofItems_map_ok] at hkinds
    have hno : ∀ e, .error e ∉ (Scan.ofText .dented source).items := by
      refine Scan.no_fault_of_braced .origin (.of_getElem? hcr) fun item hi => ?_
      rw [show (Scan.ofChars .braced .origin source.toList).items = xs.map .ok from hxs] at hi
      obtain ⟨x, hx, rfl⟩ := List.mem_map.1 hi
      refine ⟨x, rfl, fun c hc => hkinds x.token (List.mem_map_of_mem hx) ?_⟩
      show x.kind ∈ _
      generalize x.kind = k at hc
      rcases eq_of_brace? hc with rfl | rfl | rfl <;> cases hc <;> decide
    obtain ⟨ys, hys⟩ := exists_eq_map_ok hno
    rw [drain_rawDented, hys, Drain.ofItems_map_ok, Scan.eof_ofText]

/-- The statement of `Variant.forms_share_grammar` for a text with both kinds of line breaks, a form
feed and a comment: its braced stream is its plain stream without the line breaks. -/
theorem forms_share_grammar_mixed_breaks :
    (rawDented.drain "if a:\r\n\t\x0cb == \"#\" # c\n").finish = .ok ⟨.eof, 22, 22⟩ ∧
    (braced.drain "if a:\r\n\t\x0cb == \"#\" # c\n").finish = .ok ⟨.eof, 22, 22⟩ ∧
    (braced.drain "if a:\r\n\t\x0cb == \"#\" # c\n").tokens =
      [⟨.ifWord, 0, 2⟩, ⟨.ident, 3, 4⟩, ⟨.colon, 4, 5⟩, ⟨.ident, 9, 10⟩, ⟨.eqEq, 11, 13⟩,
        ⟨.str, 14, 17⟩] := by
  have hlines : (rawDented.drain "if a:\r\n\t\x0cb == \"#\" # c\n").finish =
      .ok ⟨.eof, 22, 22⟩ := by
    decide +kernel
  obtain ⟨hbraced, htokens⟩ := (forms_share_grammar _).1 _ hlines
  have hkinds : ∀ u ∈ (braced.drain "if a:\r\n\t\x0cb == \"#\" # c\n").tokens,
      u.kind ∉ [.lbrace, .rbrace, .semi] := by
    decide +kernel
  have hreturns : ∀ i < 22, "if a:\r\n\t\x0cb == \"#\" # c\n".toList[i]? = some '\r' →
      "if a:\r\n\t\x0cb == \"#\" # c\n".toList[i + 1]? = some '\n' := by
    decide +kernel
  refine ⟨?_, hbraced, htokens.trans (by decide +kernel)⟩
  refine (forms_share_grammar _).2 _ hbraced hkinds fun i hi => hreturns i ?_ hi
  exact (List.getElem?_eq_some_iff.1 hi).1

end Variant

end OffsideBench

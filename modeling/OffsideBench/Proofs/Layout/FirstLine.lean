import OffsideBench.Proofs.Layout.Balance
import OffsideBench.Proofs.Layout.Concatenation

/-!
# The first line of code

Two rules say how wide a line of code is. The first line is measured up to its first token, and is
rejected if that gives a width; a later one is measured over the blanks that are read along with its
line break. To compare them the first line is read a second time behind a line with a name. The two
rules agree but for form feeds, which are skipped in front of a token and are never read along with
a line break.

Main statement: `Layout.first_line_is_measured_to_its_token`.
-/

namespace OffsideBench

open Token (Kind)

/-! ## The way to the first content token -/

/-- The first content token that the stream without structure reaches without a fault. -/
def firstContent? (source : String) : Option Token :=
  (Variant.rawDented.drain source).tokens.find? (·.kind.isContent)

namespace Leads

variable {finish : Position} {items : List (Except LexError Lexeme)} {x : Lexeme}

/-- A stream leads to the first of its items that is no line break. -/
theorem of_filter {more : List (Except LexError Lexeme)}
    (h : items.filter (!Scan.isNewline ·) = .ok x :: more) :
    ∃ newlines rest, Leads finish items newlines (.ok x) rest := by
  induction items with
  | nil => cases h
  | cons item items ih =>
    cases item with
    | error e => cases h
    | ok y =>
      by_cases hy : y.kind = .newline
      · rw [List.filter_cons_of_neg (by simp [Scan.isNewline, hy])] at h
        obtain ⟨newlines, rest, hleads⟩ := ih h
        exact ⟨y :: newlines, rest, .newline hy hleads⟩
      · rw [List.filter_cons_of_pos (by simp [Scan.isNewline, hy])] at h
        obtain rfl : y = x := Except.ok.inj (List.cons.inj h).1
        exact ⟨[], items, .lexeme hy items⟩

/-- A stream that leads to a lexeme has it in front of its items that are no line breaks. -/
theorem filter_eq {newlines : List Lexeme} {rest : List (Except LexError Lexeme)}
    (h : Leads finish items newlines (.ok x) rest) (hx : x.kind.isContent = true) :
    ∃ more, items.filter (!Scan.isNewline ·) = .ok x :: more := by
  generalize hitem : (.ok x : Except LexError Lexeme) = item at h
  induction h with
  | done =>
    cases hitem
    cases hx
  | fault => cases hitem
  | lexeme hne =>
    cases hitem
    exact ⟨_, List.filter_cons_of_pos (by simp [Scan.isNewline, hne])⟩
  | newline hn _ ih =>
    obtain ⟨more, hmore⟩ := ih hitem
    exact ⟨more, (List.filter_cons_of_neg (by simp [Scan.isNewline, hn])).trans hmore⟩

/-- A stream leads to its first content token, if no fault comes first. -/
theorem of_find? {t : Token} (h : (Drain.ofItems finish items).tokens.find? (·.kind.isContent) =
      some t)
    (hkind : ∀ y, .ok y ∈ items → y.kind.isContent = true ∨ y.kind = .newline) :
    ∃ newlines x rest, Leads finish items newlines (.ok x) rest ∧ x.token = t ∧
      x.kind.isContent = true := by
  induction items with
  | nil => cases h
  | cons item items ih =>
    cases item with
    | error e => cases h
    | ok y =>
      change (y.token :: (Drain.ofItems finish items).tokens).find? _ = some t at h
      rcases hkind y List.mem_cons_self with hy | hy
      · have hpos : y.token.kind.isContent = true := hy
        rw [List.find?_cons_of_pos (p := fun u : Token => u.kind.isContent) hpos] at h
        exact ⟨[], y, items, .lexeme (Kind.ne_of_isContent hy rfl) items, Option.some.inj h, hy⟩
      · have hneg : ¬ y.token.kind.isContent = true := by
          rw [show y.token.kind = .newline from hy]
          exact Bool.false_ne_true
        rw [List.find?_cons_of_neg (p := fun u : Token => u.kind.isContent) hneg] at h
        obtain ⟨newlines, x, rest, hleads, hx⟩ :=
          ih h fun z hz => hkind z (List.mem_cons_of_mem _ hz)
        exact ⟨y :: newlines, x, rest, .newline hy hleads, hx⟩

/-- The items that are read over, and the lexeme behind them, come first. -/
theorem map_ok_prefix {newlines : List Lexeme} {rest : List (Except LexError Lexeme)}
    (h : Leads finish items newlines (.ok x) rest) (hx : x.kind.isContent = true) :
    (newlines ++ [x]).map .ok <+: items := by
  rcases h.eq_append with rfl | ⟨-, he, -⟩
  · exact ⟨rest, by simp⟩
  · cases he
    cases hx

end Leads

theorem Line.ofLexemes_concat {ns : List Lexeme} (hns : ∀ n ∈ ns, n.kind = .newline) {x : Lexeme}
    (hx : x.kind ≠ .newline) : ofLexemes (ns ++ [x]) = [⟨ns.getLast?, x, []⟩] := by
  have hone : ofLexemes [x] = [⟨none, x, []⟩] := ofLexemes_put hx []
  cases ns with
  | nil => exact hone
  | cons n ns =>
    rw [ofLexemes_newlines (fun m hm => hns m (List.mem_cons_of_mem _ hm)) n
      (hns n List.mem_cons_self), hone, List.getLast?_cons]
    rfl

/-! ## What stands in front of the first token -/

theorem WholeLines.rtakeWhile_append {as : List Char} (h : WholeLines as) (bs : List Char) :
    (as ++ bs).rtakeWhile (· ≠ '\n') = bs.rtakeWhile (· ≠ '\n') := by
  induction bs using List.reverseRecOn with
  | nil =>
    rw [List.append_nil, List.rtakeWhile_nil, List.rtakeWhile_eq_nil_iff]
    intro hne
    have hlast := h.resolve_left hne
    rw [List.getLast?_eq_some_getLast hne] at hlast
    simp [Option.some.inj hlast]
  | append_singleton bs b ih =>
    rw [← List.append_assoc, List.rtakeWhile_concat, List.rtakeWhile_concat, ih]

/-- In front of the first content of a text stand blanks of its line. -/
theorem Scan.isBlank_of_mem_lead {source : String} {front cs : List Char} {x : Lexeme}
    {items : List (Except LexError Lexeme)} (hfront : WholeLines front)
    (hs : front ++ cs = source.toList)
    (h : content (Position.origin.past front) cs = .ok x :: items) :
    ∀ c ∈ x.token.lead source, Dialect.dented.isBlank c = true := by
  induction cs using rowInduction generalizing front with
  | last cs hcs =>
    have hs' : front ++ cs ++ [] = source.toList := by rw [List.append_nil, hs]
    rw [lead_of_content hfront hs' hcs h]
    exact fun c hc => List.mem_takeWhile_imp hc
  | row row br rest hrow ih =>
    rw [content_row hrow, ← Position.past_append] at h
    cases hcontent : content (Position.origin.past front) row with
    | nil =>
      rw [hcontent] at h
      exact ih (hrow.wholeLines_append front) (by rw [← hs]; simp) h
    | cons item more =>
      rw [hcontent] at h
      obtain rfl : item = .ok x := (List.cons.inj h).1
      have hs' : front ++ row ++ (br ++ rest) = source.toList := by rw [← hs]; simp
      rw [lead_of_content hfront hs' hrow.not_mem hcontent]
      exact fun c hc => List.mem_takeWhile_imp hc

theorem Lexeme.shift_behind (s₁ : String) (front : List Char) (k : Kind) (text : List Char) :
    (Lexeme.behind front k text).token.shift s₁.utf8ByteSize =
      (Lexeme.behind (s₁.toList ++ front) k text).token := by
  have hoffset : ∀ cs, s₁.utf8ByteSize + (Position.origin.past cs).offset =
      (Position.origin.past (s₁.toList ++ cs)).offset := by
    intro cs
    rw [Position.origin_past_offset, Position.origin_past_offset, String.ofList_append,
      String.ofList_toList, String.utf8ByteSize_append]
  show Token.mk k (_ + (Position.origin.past _).offset) (_ + (Position.origin.past _).offset) =
    Token.mk k _ _
  rw [hoffset, hoffset, ← List.append_assoc]
  rfl

/-- Whole lines in front of a text stay out of what stands in front of its tokens on their lines. -/
theorem Token.lead_shift {s₁ source : String} (hs₁ : WholeLines s₁.toList) {x : Lexeme}
    (hx : .ok x ∈ (Scan.ofText .dented source).items) :
    (x.token.shift s₁.utf8ByteSize).lead (s₁ ++ source) = x.token.lead source := by
  obtain ⟨before, text, after, hs, -, hx⟩ := @Scan.mem_items _ [] _ _ hx
  rw [List.nil_append] at hx
  have hbefore : x.token.before source = before := by
    rw [hx]
    exact Lexeme.before_behind _ hs.symm
  have hbefore' : (x.token.shift s₁.utf8ByteSize).before (s₁ ++ source) = s₁.toList ++ before := by
    rw [hx, Lexeme.shift_behind]
    have hs' : s₁.toList ++ before ++ text ++ after = (s₁ ++ source).toList := by
      rw [String.toList_append, hs]
      simp
    exact Lexeme.before_behind _ hs'
  rw [lead, lead, hbefore, hbefore', hs₁.rtakeWhile_append]

theorem columns_lt_append (as : List Char) (b : Char) (bs : List Char) :
    columns as < columns (as ++ b :: bs) := by
  induction bs using List.reverseRecOn with
  | nil => exact columns_lt_concat as b
  | append_singleton bs c ih =>
    have hlt := columns_lt_concat (as ++ b :: bs) c
    rw [List.append_assoc, List.cons_append] at hlt
    exact ih.trans hlt

theorem columns_takeWhile_lt {p : Char → Bool} {c : Char} {cs : List Char} (hc : c ∈ cs)
    (hp : p c = false) : columns (cs.takeWhile p) < columns cs := by
  have hcs := List.takeWhile_append_dropWhile (p := p) (l := cs)
  cases hd : cs.dropWhile p with
  | nil =>
    have hpc := List.dropWhile_eq_nil_iff.1 hd c hc
    rw [hp] at hpc
    cases hpc
  | cons d ds =>
    rw [hd] at hcs
    have hlt := columns_lt_append (cs.takeWhile p) d ds
    rw [hcs] at hlt
    exact hlt

/-- The blanks that indentation is made of are all but form feeds. -/
theorem isIndentBlank_of_isBlank {c : Char} (h : Dialect.dented.isBlank c = true)
    (hc : c ≠ '\x0c') : isIndentBlank c = true := by
  rcases Dialect.dented.eq_of_isBlank h with rfl | rfl | rfl | rfl | rfl
  · rfl
  · rfl
  · exact absurd rfl hc
  · cases h
  · cases h

namespace Layout

/-! ## The first line alone -/

/-- The stream with structure of a text begins with the fault that its first line of code is
indented by the given width. -/
def RejectsFirstLine (source : String) (width : UInt32) : Prop :=
  ∃ offset, (ofText source).next.1 = .error (.unexpectedIndent offset width)

section Place

variable {s : Layout} {x : Lexeme}

/-- A content token is handed out, unless it is the first of all and indented. -/
theorem place_of_isContent (hx : x.kind.isContent = true) :
    s.place x =
      if s.last = none ∧ 0 < x.start.width then
        (.error (.unexpectedIndent x.start.lineStart x.start.width), s)
      else
        s.handOut x.token [] := if_neg (Kind.ne_of_isContent hx rfl)

/-- A line of code outside of all blocks opens one if it is indented. -/
theorem startLine_of_widths_nil (hs : s.widths = []) (n : Lexeme) :
    s.startLine n =
      if 0 < n.stop.width then
        { s with widths := [n.stop.width] }.handOut { n.token with kind := .indent } []
      else
        s.handOut n.token [] := by
  obtain ⟨scan, lookahead, pending, widths, last⟩ := s
  obtain rfl : widths = [] := hs
  unfold startLine
  show (if 0 < n.stop.width then _ else _) = _
  split
  · rfl
  · rename_i hw
    have hzero : n.stop.width = 0 := by
      refine UInt32.toNat_inj.1 (Nat.eq_zero_of_not_pos fun hpos => hw ?_)
      exact UInt32.lt_iff_toNat_lt.2 hpos
    exact if_pos hzero

/-- A machine that has begun a line reads on to the start of the next one. -/
theorem next_of_newline {n : Lexeme} {newlines : List Lexeme}
    {rest : List (Except LexError Lexeme)} (hp : s.pending = []) (hl : s.lookahead = none)
    (hlast : s.last ≠ none) (h : Leads s.scan.finish s.scan.items newlines (.ok x) rest)
    (hn : newlines.getLast? = some n) (hx : x.kind.isContent = true) :
    s.next = { s.goOn rest with lookahead := some x }.startLine n := by
  have hstream : s.stream = s.scan.items := by
    rw [stream, hl]
    rfl
  have hahead : ∀ y, s.lookahead = some y → y.kind ≠ .newline := by
    rw [hl]
    rintro y ⟨⟩
  have hgo : ¬ ((s.goOn rest).last = none ∨ x.kind = .eof) := by
    rintro (hnone | he)
    · exact hlast hnone
    · exact Kind.ne_of_isContent hx rfl he
  rw [next_of_leads hp hahead (hstream.symm ▸ h), hn, meet, resume, if_neg hgo]

theorem next_of_lookahead (hp : s.pending = []) (hl : s.lookahead = some x)
    (hlast : s.last ≠ none) (hx : x.kind.isContent = true) : s.next.1 = .ok x.token := by
  have hkind : x.kind ≠ .newline := Kind.ne_of_isContent hx rfl
  have hlead : Leads s.scan.finish s.stream [] (.ok x) s.scan.items := by
    rw [stream, hl]
    exact .lexeme hkind _
  have hahead : ∀ y, s.lookahead = some y → y.kind ≠ .newline := by
    rw [hl]
    rintro y ⟨⟩
    exact hkind
  have hplace : (s.goOn s.scan.items).place x = (s.goOn s.scan.items).handOut x.token [] :=
    place_of_last hlast (Kind.ne_of_isContent hx rfl)
  rw [next_of_leads hp hahead hlead]
  exact congrArg Prod.fst hplace

end Place

section FirstContent

variable {source : String} {x : Lexeme} {newlines : List Lexeme}
  {rest : List (Except LexError Lexeme)}

/-- What a fresh machine does first is to place the first lexeme that is no line break. -/
theorem next_ofText (h : Leads (ofText source).scan.finish (ofText source).scan.items newlines
      (.ok x) rest) : (ofText source).next = ((ofText source).goOn rest).place x := by
  rw [next_of_leads (s := ofText source) rfl (by rintro y ⟨⟩) h]
  cases newlines.getLast? with
  | none => rfl
  | some n =>
    have hlast : ((ofText source).goOn rest).last = none ∨ x.kind = .eof := .inl rfl
    rw [meet, resume, if_pos hlast]

/-- The first line of code is measured up to its first token. -/
theorem rejectsFirstLine_iff (h : Leads (ofText source).scan.finish (ofText source).scan.items
      newlines (.ok x) rest) (hx : x.kind.isContent = true) (w : UInt32) :
    RejectsFirstLine source w ↔ 0 < w ∧ w = lineWidth (x.token.lead source) := by
  have hlies : Line.LiesIn source ⟨newlines.getLast?, x, []⟩ := by
    have hlie := @Line.lieIn_ofLexemes source [] _ _ rfl (h.map_ok_prefix hx)
    rw [Line.ofLexemes_concat h.kind_newlines (Kind.ne_of_isContent hx rfl)] at hlie
    exact hlie.each _ List.mem_cons_self
  have hwidth : x.start.width = lineWidth (x.token.lead source) := hlies.width
  rw [RejectsFirstLine, next_ofText h, place_of_isContent hx, ← hwidth]
  by_cases hpos : 0 < x.start.width
  · rw [if_pos ⟨rfl, hpos⟩]
    constructor
    · rintro ⟨offset, he⟩
      cases he
      exact ⟨hpos, rfl⟩
    · rintro ⟨-, rfl⟩
      exact ⟨_, rfl⟩
  · rw [if_neg fun hboth => hpos hboth.2]
    constructor
    · rintro ⟨offset, he⟩
      cases he
    · rintro ⟨hw, rfl⟩
      exact absurd hw hpos

end FirstContent

/-! ## The first line behind a name -/

/-- Behind a line with the name `x`, the stream with structure of a text opens a block of the given
width between that name and `t`, the first content token of the text. -/
structure OpensBlock (source : String) (t : Token) (width : UInt32) : Prop where
  answers : ∃ mark, mark.kind = .indent ∧
    (ofText ("x\n" ++ source)).answers [.next, .next, .next] =
      [.ok ⟨.ident, 0, 1⟩, .ok mark, .ok (t.shift 2)]
  widths : ((ofText ("x\n" ++ source)).after [.next, .next]).widths = [width]

/-- Behind the name stands a line break, and behind that the content of the text. -/
theorem items_behind_name (source : String) :
    ∃ items, (ofText ("x\n" ++ source)).scan.items = .ok (.behind [] .ident ['x']) :: items ∧
      (∃ n more, n.kind = .newline ∧ items = .ok n :: more) ∧
      items.filter (!Scan.isNewline ·) =
        Scan.content (Position.origin.past ['x', '\n']) source.toList := by
  have hname : Dialect.dented.piece 'x' ('\n' :: source.toList) =
      ⟨.token .ident, ['x'], '\n' :: source.toList⟩ := rfl
  have hbreak : Dialect.dented.piece '\n' source.toList = .newline ['\n'] source.toList := rfl
  have htext : ("x\n" ++ source).toList = 'x' :: '\n' :: source.toList := String.toList_append
  refine ⟨(Scan.ofChars .dented (Position.origin.past ['x']) ('\n' :: source.toList)).items,
    ?_, ?_, Scan.content_break (EndsRow.nil (.inl rfl)) (Position.origin.past ['x']) _⟩
  · show (Scan.ofChars .dented (Position.origin.past []) ("x\n" ++ source).toList).items = _
    rw [htext, Scan.items_ofChars_cons, hname]
    rfl
  · rw [Scan.items_ofChars_cons, hbreak]
    exact ⟨.behind ['x'] .newline (Piece.newline ['\n'] source.toList).text, _, rfl, rfl⟩

/-- The last line break in front of a line that starts behind another one is as wide as the blanks
behind it. -/
theorem width_of_later_line {source : String} {finish : Position} {first n y : Lexeme}
    {newlines : List Lexeme} {items rest : List (Except LexError Lexeme)}
    (hitems : (Scan.ofText .dented source).items = .ok first :: items)
    (hfirst : first.kind ≠ .newline) (h : Leads finish items newlines (.ok y) rest)
    (hn : newlines.getLast? = some n) (hy : y.kind.isContent = true) :
    n.stop.width = lineWidth ((y.token.lead source).takeWhile isIndentBlank) := by
  have hprefix : (first :: (newlines ++ [y])).map .ok <+: (Scan.ofText .dented source).items := by
    rw [hitems, List.map_cons]
    exact List.cons_prefix_cons.2 ⟨rfl, h.map_ok_prefix hy⟩
  have hlie := @Line.lieIn_ofLexemes source [] _ _ rfl hprefix
  rw [Line.ofLexemes_put hfirst, Line.ofLexemes_concat h.kind_newlines
    (Kind.ne_of_isContent hy rfl), hn] at hlie
  have hline := hlie.each ⟨some n, y, []⟩ (List.mem_cons_of_mem _ List.mem_cons_self)
  exact (hline.newline n rfl).2

section BehindName

variable {source : String} {x : Lexeme} {newlines : List Lexeme}
  {rest : List (Except LexError Lexeme)}
  (h : Leads (ofText source).scan.finish (ofText source).scan.items newlines (.ok x) rest)
  (hx : x.kind.isContent = true)

include h hx

/-- Behind the name the stream leads over line breaks to the first content of the text, with its
token moved. The last of them is as wide as the blanks behind it. -/
theorem leads_behind_name :
    ∃ items n y newlines' rest',
      (ofText ("x\n" ++ source)).scan.items = .ok (.behind [] .ident ['x']) :: items ∧
      Leads (ofText ("x\n" ++ source)).scan.finish items newlines' (.ok y) rest' ∧
      newlines'.getLast? = some n ∧ y.kind.isContent = true ∧ y.token = x.token.shift 2 ∧
      n.stop.width = lineWidth ((x.token.lead source).takeWhile isIndentBlank) := by
  obtain ⟨items, hitems, ⟨n₀, more, hn₀, hfirst⟩, hfilter⟩ := items_behind_name source
  -- The content of the text is moved by the name and its line break.
  obtain ⟨behind, hbehind⟩ := h.filter_eq hx
  have hshift := @Scan.content_shift (Position.origin.past ['x', '\n']) .origin 2 rfl source.toList
  rw [← hfilter, show Scan.content .origin source.toList = _ from hbehind, List.map_cons] at hshift
  obtain ⟨item, others, hcons, hitem, -⟩ := List.map_eq_cons_iff.1 hshift
  obtain ⟨y, rfl, hy⟩ : ∃ y, item = .ok y ∧ y.token = x.token.shift 2 := by
    cases item with
    | error e => cases hitem
    | ok y => exact ⟨y, rfl, Option.some.inj hitem⟩
  have hycontent : y.kind.isContent = true := by
    have hkind : y.kind = x.kind := congrArg Token.kind hy
    rw [hkind, hx]
  obtain ⟨newlines', rest', hleads⟩ : ∃ newlines' rest',
      Leads (ofText ("x\n" ++ source)).scan.finish items newlines' (.ok y) rest' :=
    Leads.of_filter hcons
  obtain ⟨n, hn⟩ : ∃ n, newlines'.getLast? = some n := by
    have hne : newlines' ≠ [] := by
      rintro rfl
      rw [hfirst] at hleads
      cases hleads with
      | lexeme hkind => exact hkind hn₀
    exact ⟨_, List.getLast?_eq_some_getLast hne⟩
  have hwidth := width_of_later_line hitems nofun hleads hn hycontent
  have hwhole : WholeLines "x\n".toList := .inr rfl
  have hmem : .ok x ∈ (Scan.ofText .dented source).items :=
    (h.map_ok_prefix hx).subset (by simp)
  have hlead := Token.lead_shift hwhole hmem
  rw [show "x\n".utf8ByteSize = 2 from rfl] at hlead
  rw [hy, hlead] at hwidth
  exact ⟨items, n, y, newlines', rest', hitems, hleads, hn, hycontent, hy, hwidth⟩

/-- The first three answers behind a name: that name, what the line break in front of the first
content of the text stands for, and that content. -/
theorem answers_behind_name :
    let s := ofText ("x\n" ++ source)
    let width := lineWidth ((x.token.lead source).takeWhile isIndentBlank)
    ∃ mark, s.answers [.next, .next, .next] =
        [.ok ⟨.ident, 0, 1⟩, .ok mark, .ok (x.token.shift 2)] ∧
      (0 < width ∧ mark.kind = .indent ∧ (s.after [.next, .next]).widths = [width] ∨
        ¬ 0 < width ∧ mark.kind = .newline ∧ (s.after [.next, .next]).widths = []) := by
  intro s width
  obtain ⟨items, n, y, newlines', rest', hitems, hleads, hn, hy, htoken, hwidth⟩ :=
    leads_behind_name h hx
  have hnkind : n.kind = .newline := hleads.kind_newlines n (List.mem_of_getLast? hn)
  have hfirst : s.next = (s.goOn items).handOut ⟨.ident, 0, 1⟩ [] := by
    have hkind : (Lexeme.behind [] .ident ['x']).kind ≠ .newline := nofun
    have hlead : Leads s.scan.finish s.scan.items [] (.ok (.behind [] .ident ['x'])) items := by
      rw [hitems]
      exact .lexeme hkind items
    rw [next_ofText hlead]
    rfl
  have hsecond := next_of_newline (s := ((s.goOn items).handOut ⟨.ident, 0, 1⟩ []).2) rfl rfl
    nofun hleads hn hy
  rw [startLine_of_widths_nil rfl] at hsecond
  have hanswers : s.answers [.next, .next, .next] =
      [s.next.1, s.next.2.next.1, s.next.2.next.2.next.1] := rfl
  have hafter : s.after [.next, .next] = s.next.2.next.2 := rfl
  rw [hanswers, hafter, hfirst, hsecond, ← htoken]
  change n.stop.width = width at hwidth
  rw [hwidth]
  by_cases hpos : 0 < width
  · rw [if_pos hpos]
    refine ⟨{ n.token with kind := .indent }, ?_, .inl ⟨hpos, rfl, rfl⟩⟩
    rw [next_of_lookahead rfl rfl (Option.some_ne_none _) hy]
    rfl
  · rw [if_neg hpos]
    refine ⟨n.token, ?_, .inr ⟨hpos, hnkind, rfl⟩⟩
    rw [next_of_lookahead rfl rfl (Option.some_ne_none _) hy]
    rfl

/-- Behind a name the first line of code is measured over the blanks that follow its line break. -/
theorem opensBlock_iff (w : UInt32) :
    OpensBlock source x.token w ↔
      0 < w ∧ w = lineWidth ((x.token.lead source).takeWhile isIndentBlank) := by
  obtain ⟨mark, hanswers, hmark⟩ := answers_behind_name h hx
  rcases hmark with ⟨hpos, hkind, hwidths⟩ | ⟨hzero, -, hwidths⟩
  · constructor
    · rintro ⟨-, hw⟩
      rw [hwidths] at hw
      obtain rfl := (List.cons.inj hw).1
      exact ⟨hpos, rfl⟩
    · rintro ⟨-, rfl⟩
      exact ⟨⟨mark, hkind, hanswers⟩, hwidths⟩
  · constructor
    · rintro ⟨-, hw⟩
      rw [hwidths] at hw
      cases hw
    · rintro ⟨hw, rfl⟩
      exact absurd hw hzero

end BehindName

/-! ## The two rules -/

/-- **Form feeds tell the first line of code from the others.** A text whose first content token is
`t`, with no fault in front of it, is rejected for the width of all that stands in front of `t` on
its line. Behind a line with a name it opens a block in front of `t` that is as wide as the spaces
and tabs which that begins with. So the two agree if no form feed is among the blanks in front of
`t`, and if one is they do not, as long as the width does not wrap around. -/
theorem first_line_is_measured_to_its_token {source : String} {t : Token}
    (h : firstContent? source = some t) :
    (∀ w, RejectsFirstLine source w ↔ 0 < w ∧ w = lineWidth (t.lead source)) ∧
    (∀ w, OpensBlock source t w ↔
      0 < w ∧ w = lineWidth ((t.lead source).takeWhile isIndentBlank)) ∧
    ('\x0c' ∉ t.lead source → ∀ w, RejectsFirstLine source w ↔ OpensBlock source t w) ∧
    ('\x0c' ∈ t.lead source → columns (t.lead source) < UInt32.size →
      ¬ ∀ w, RejectsFirstLine source w ↔ OpensBlock source t w) := by
  rw [firstContent?, Variant.drain_rawDented] at h
  obtain ⟨newlines, x, rest, hleads, rfl, hx⟩ :=
    Leads.of_find? h fun y hy => Scan.kind_of_mem_items hy
  have hrejects := rejectsFirstLine_iff hleads hx
  have hopens := opensBlock_iff hleads hx
  refine ⟨hrejects, hopens, ?_, ?_⟩
  · intro hfeed w
    have hblank : ∀ c ∈ x.token.lead source, isIndentBlank c = true := by
      obtain ⟨more, hmore⟩ := hleads.filter_eq hx
      have hlead := @Scan.isBlank_of_mem_lead source [] source.toList x more (.inl rfl) rfl hmore
      intro c hc
      refine isIndentBlank_of_isBlank (hlead c hc) ?_
      rintro rfl
      exact hfeed hc
    rw [hrejects, hopens, List.takeWhile_eq_self_iff.2 hblank]
  · intro hfeed hcolumns hsame
    -- At the width of all that stands in front of the token the two sides differ.
    have hlt := columns_takeWhile_lt (p := isIndentBlank) hfeed rfl
    have hlong := toNat_lineWidth hcolumns
    have hshort := toNat_lineWidth (hlt.trans hcolumns)
    have hpos : 0 < lineWidth (x.token.lead source) := by
      rw [UInt32.lt_iff_toNat_lt, hlong]
      exact Nat.zero_lt_of_lt hlt
    have heq := ((hopens _).1 ((hsame _).1 ((hrejects _).2 ⟨hpos, rfl⟩))).2
    rw [heq, hshort] at hlong
    exact hlt.ne hlong

/-- The statement of `Layout.first_line_is_measured_to_its_token` for a first line of code behind a
comment that ends in a carriage return and a line feed. -/
theorem first_line_is_measured_to_its_token_behind_comment :
    RejectsFirstLine "# c\r\n \t y" 9 ∧ OpensBlock "# c\r\n \t y" ⟨.ident, 8, 9⟩ 9 := by
  have hfirst : firstContent? "# c\r\n \t y" = some ⟨.ident, 8, 9⟩ := by decide +kernel
  have hlead : (⟨.ident, 8, 9⟩ : Token).lead "# c\r\n \t y" = [' ', '\t', ' '] := by decide +kernel
  obtain ⟨hrejects, -, hsame, -⟩ := first_line_is_measured_to_its_token hfirst
  rw [hlead] at hrejects hsame
  have hwidth : RejectsFirstLine "# c\r\n \t y" 9 := (hrejects 9).2 (by decide)
  exact ⟨hwidth, (hsame (by decide) 9).1 hwidth⟩

/-- A form feed in front of the first token gives a width to the first line of code, but opens no
block when that line stands behind another one. -/
theorem form_feed_indents_first_line_only :
    firstContent? "\x0cy" = some ⟨.ident, 1, 2⟩ ∧
      ¬ (RejectsFirstLine "\x0cy" 1 ↔ OpensBlock "\x0cy" ⟨.ident, 1, 2⟩ 1) := by
  refine ⟨by decide +kernel, fun hsame => ?_⟩
  have hrejects : RejectsFirstLine "\x0cy" 1 := ⟨0, by decide +kernel⟩
  have hwidths : ((ofText ("x\n" ++ "\x0cy")).after [.next, .next]).widths = [] := by
    decide +kernel
  have hopens := (hsame.1 hrejects).widths
  rw [hwidths] at hopens
  cases hopens

end Layout

end OffsideBench

import OffsideBench.Proofs.Layout.Sketch

/-!
# Texts that are read alike

The layout machine compares kinds and widths and copies everything else. So on two texts whose
lexemes agree in kinds, texts and widths, wherever they stand, it runs in step: call by call it
gives tokens that say the same, or faults that differ at most in their places. Two texts have such
lexemes if they are cut into pieces of the same roles and widths, of which only line breaks differ
in what they are made of.

Main statements: `Dialect.CutsAlike.itemsAlike`, texts that are cut alike have alike lexemes;
`Layout.Alike.next`, one call keeps two machines alike; `Layout.Alike.said_drain`, so they are
drained alike, up to the first fault; and `Variant.prepare_braced_of_said`, texts that are drained
alike have the same braced text or the same fault.
-/

namespace OffsideBench

open Token (Kind)

/-! ## What is said wherever it stands -/

/-- A fault without its place. -/
def LexError.unplaced : LexError → LexError
  | unrecognized _ => .unrecognized 0
  | inconsistentDedent _ width => .inconsistentDedent 0 width
  | unexpectedIndent _ width => .unexpectedIndent 0 width

/-- What a drained stream of `source` says: its tokens, and the end of the text or the fault, all
without their places. -/
def Drain.said (source : String) (d : Drain) :
    List (Kind × Option String) × Except LexError (Kind × Option String) :=
  (d.tokens.map (Token.reading source),
    (d.finish.map (Token.reading source)).mapError LexError.unplaced)

/-- Two answers are alike: they are faults that differ at most in their places, or related. -/
inductive AnswersAlike {α : Type} (R : α → α → Prop) :
    Except LexError α → Except LexError α → Prop where
  /-- Faults. -/
  | error {e e' : LexError} (h : e'.unplaced = e.unplaced) : AnswersAlike R (.error e) (.error e')
  /-- What is no fault. -/
  | ok {a a' : α} (h : R a a') : AnswersAlike R (.ok a) (.ok a')

/-- Tokens of two texts say the same. -/
def Token.Alike (source source' : String) (t t' : Token) : Prop :=
  t'.reading source' = t.reading source

/-- Lexemes of two texts agree in their kinds, the texts of content, and their widths. -/
structure Lexeme.Alike (source source' : String) (x x' : Lexeme) : Prop where
  token : Token.Alike source source' x.token x'.token
  start : x'.start.width = x.start.width
  stop : x'.stop.width = x.stop.width

section Alike

variable {source source' : String}

theorem Token.Alike.kind {t t' : Token} (h : Token.Alike source source' t t') : t'.kind = t.kind :=
  congrArg Prod.fst h

theorem Lexeme.Alike.kind {x x' : Lexeme} (h : x.Alike source source' x') : x'.kind = x.kind :=
  Token.Alike.kind h.token

theorem Lexeme.Alike.eof {p p' : Position} (h : p'.width = p.width) :
    (Lexeme.eof p).Alike source source' (Lexeme.eof p') := ⟨rfl, h, h⟩

/-- The items of the streams of two texts are alike. -/
abbrev Scan.ItemsAlike (source source' : String) :
    List (Except LexError Lexeme) → List (Except LexError Lexeme) → Prop :=
  List.Forall₂ (AnswersAlike (Lexeme.Alike source source'))

/-- A plain stream says what its items say. -/
theorem Drain.said_ofItems {finish finish' : Position}
    {items items' : List (Except LexError Lexeme)}
    (h : Scan.ItemsAlike source source' items items') :
    (ofItems finish' items').said source' = (ofItems finish items).said source := by
  induction h with
  | nil => rfl
  | cons hitem _ ih =>
    cases hitem with
    | error he => exact congrArg (fun e => ([], Except.error e)) he
    | ok hx =>
      exact congrArg₂ (fun r (d : _ × Except LexError (Kind × Option String)) => (r :: d.1, d.2))
        hx.token ih

end Alike

/-! ## Texts that are cut alike -/

theorem Position.width_next {p p' : Position} (h : p'.width = p.width) (c : Char) :
    (p'.next c).width = (p.next c).width := by
  unfold next
  split
  · rfl
  · exact congrArg (widen · c) h

/-- Two pieces have one role and lead as far, and only line breaks differ in their texts. -/
structure Piece.Alike (p p' : Piece) : Prop where
  role : p'.role = p.role
  text : ∀ {k}, p.role = .token k → k ≠ .newline → p'.text = p.text
  width : ∀ {q q' : Position}, q'.width = q.width →
    (q'.past p'.text).width = (q.past p.text).width

/-- In front of related texts stand pieces that are alike, and the texts behind them are related
again. -/
structure Dialect.CutsAlike (d : Dialect) (R : List Char → List Char → Prop) : Prop where
  nil : ∀ {cs'}, R [] cs' → cs' = []
  cons : ∀ {c cs cs'}, R (c :: cs) cs' → ∃ c' ds', cs' = c' :: ds' ∧
    (d.piece c cs).Alike (d.piece c' ds') ∧ R (d.piece c cs).rest (d.piece c' ds').rest

section CutsAlike

variable {source source' : String} {front front' : List Char}

/-- Tokens of one kind say the same where their texts are the same, and line breaks say nothing but
their kind. -/
theorem Token.alike_behind {text text' rest rest' : List Char} {k : Kind}
    (htext : k ≠ .newline → text' = text) (hs : front ++ text ++ rest = source.toList)
    (hs' : front' ++ text' ++ rest' = source'.toList) (hk : Spells k text) :
    Token.Alike source source' (Lexeme.behind front k text).token
      (Lexeme.behind front' k text').token := by
  rcases hk.isContent_or_newline with hcontent | rfl
  · have hsame := htext (Kind.ne_of_isContent hcontent rfl)
    have hread := Lexeme.text?_behind front k text rest
    have hread' := Lexeme.text?_behind front' k text' rest'
    rw [hs, String.ofList_toList] at hread
    rw [hs', String.ofList_toList] at hread'
    rw [Token.Alike, Lexeme.reading_token hcontent, Lexeme.reading_token hcontent,
      Lexeme.reading, Lexeme.reading, hread, hread', hsame]
    rfl
  · rfl

/-- Texts that are cut alike behind positions of one width have alike lexemes. -/
theorem Dialect.CutsAlike.itemsAlike {d : Dialect} {R : List Char → List Char → Prop}
    (hR : d.CutsAlike R) {cs cs' : List Char} (h : R cs cs') (hs : front ++ cs = source.toList)
    (hs' : front' ++ cs' = source'.toList)
    (hw : (Position.origin.past front').width = (Position.origin.past front).width) :
    Scan.ItemsAlike source source' (Scan.ofChars d (Position.origin.past front) cs).items
      (Scan.ofChars d (Position.origin.past front') cs').items := by
  fun_induction d.stretches cs generalizing front front' cs' with
  | case1 =>
    obtain rfl := hR.nil h
    rw [Scan.ofChars_nil, Scan.ofChars_nil]
    exact .nil
  | case2 c cs ih =>
    obtain ⟨c', cs', rfl, hpiece, hrest⟩ := hR.cons h
    have hbehind : front ++ (d.piece c cs).text ++ (d.piece c cs).rest = source.toList := by
      rw [List.append_assoc, d.piece_text_append_rest, hs]
    have hbehind' : front' ++ (d.piece c' cs').text ++ (d.piece c' cs').rest =
        source'.toList := by
      rw [List.append_assoc, d.piece_text_append_rest, hs']
    have hstop : (Position.origin.past (front' ++ (d.piece c' cs').text)).width =
        (Position.origin.past (front ++ (d.piece c cs).text)).width := by
      rw [Position.past_append, Position.past_append]
      exact hpiece.width hw
    have hitems := ih hrest hbehind hbehind' hstop
    rw [Scan.items_ofChars_cons, Scan.items_ofChars_cons, hpiece.role]
    cases hr : (d.piece c cs).role with
    | gap => exact hitems
    | fault => exact .cons (.error rfl) hitems
    | token k =>
      have htoken := Token.alike_behind (hpiece.text hr) hbehind hbehind' (d.spells_piece c cs hr)
      exact .cons (.ok ⟨htoken, hw, hstop⟩) hitems

end CutsAlike

section Alike

variable {source source' : String}

namespace Layout

/-! ## Machines in step -/

/-- Two machines that read two texts have alike lexemes in front of them and are in the same
state. -/
structure Alike (source source' : String) (s s' : Layout) : Prop where
  items : Scan.ItemsAlike source source' s.scan.items s'.scan.items
  finish : s'.scan.finish.width = s.scan.finish.width
  lookahead : Option.Rel (Lexeme.Alike source source') s.lookahead s'.lookahead
  pending : List.Forall₂ (Token.Alike source source') s.pending s'.pending
  widths : s'.widths = s.widths
  last : s'.last = s.last

/-- Two machines have answered alike and are alike again. -/
structure InStep (source source' : String) (o o' : Except LexError Token × Layout) : Prop where
  answer : AnswersAlike (Token.Alike source source') o.1 o'.1
  state : Alike source source' o.2 o'.2

namespace Alike

variable {s s' : Layout} {x x' : Lexeme}

theorem handOut (h : Alike source source' s s') {t t' : Token} {ts ts' : List Token}
    (ht : Token.Alike source source' t t')
    (hts : List.Forall₂ (Token.Alike source source') ts ts') :
    InStep source source' (s.handOut t ts) (s'.handOut t' ts') :=
  ⟨.ok ht, { h with pending := hts, last := congrArg some ht.kind }⟩

theorem dedents (n offset offset' : Nat) :
    List.Forall₂ (Token.Alike source source') (List.replicate n (Token.empty .dedent offset))
      (List.replicate n (Token.empty .dedent offset')) := by
  induction n with
  | zero => exact .nil
  | succ n ih => exact .cons rfl ih

theorem close (h : Alike source source' s s') (hx : x.Alike source source' x') :
    InStep source source' (s.close x) (s'.close x') := by
  have hclosed : Alike source source' { s with widths := [] } { s' with widths := [] } :=
    { h with widths := rfl }
  have hpending : ∀ n, List.Forall₂ (Token.Alike source source')
      (List.replicate n (Token.empty .dedent x.start.offset) ++ [x.token])
      (List.replicate n (Token.empty .dedent x'.start.offset) ++ [x'.token]) :=
    fun n => List.rel_append (dedents n _ _) (.cons hx.token .nil)
  unfold Layout.close
  simp only [h.last, h.widths]
  split
  · cases s.widths with
    | nil => exact hclosed.handOut hx.token .nil
    | cons w ws => exact hclosed.handOut rfl (hpending _)
  · exact hclosed.handOut rfl (hpending _)

theorem place (h : Alike source source' s s') (hx : x.Alike source source' x') :
    InStep source source' (s.place x) (s'.place x') := by
  unfold Layout.place
  rw [hx.kind, hx.start, h.last]
  split
  · exact h.close hx
  · split
    · exact ⟨.error rfl, h⟩
    · exact h.handOut hx.token .nil

theorem startLine (h : Alike source source' s s') (hx : x.Alike source source' x') :
    InStep source source' (s.startLine x) (s'.startLine x') := by
  have htop : s'.top = s.top := by rw [top, top, h.widths]
  unfold Layout.startLine
  simp only [htop, hx.stop, h.widths]
  split
  · have hopened : Alike source source' { s with widths := x.stop.width :: s.widths }
        { s' with widths := x.stop.width :: s.widths } := { h with widths := rfl }
    exact hopened.handOut rfl .nil
  · have hclosed : Alike source source' { s with widths := closeTo x.stop.width s.widths }
        { s' with widths := closeTo x.stop.width s.widths } := { h with widths := rfl }
    have hdedents : ∀ n, List.Forall₂ (Token.Alike source source')
        (List.replicate n (Token.empty .dedent x.stop.offset))
        (List.replicate n (Token.empty .dedent x'.stop.offset)) := fun n => dedents n _ _
    show InStep _ _ (if _ = (closeTo x.stop.width s.widths).headD 0 then _ else _)
      (if _ = (closeTo x.stop.width s.widths).headD 0 then _ else _)
    split
    · exact hclosed.handOut hx.token (hdedents _)
    · exact ⟨.error rfl, { hclosed with pending := .cons hx.token (hdedents _) }⟩

/-- Line breaks are joined alike. -/
theorem joinNewlines {finish finish' : Position} {items items' : List (Except LexError Lexeme)}
    (hfinish : finish'.width = finish.width) (hx : x.Alike source source' x')
    (h : Scan.ItemsAlike source source' items items') :
    AnswersAlike (fun o o' => o.1.Alike source source' o'.1 ∧ o.2.Alike source source' o'.2)
        (Layout.joinNewlines finish x items).1 (Layout.joinNewlines finish' x' items').1 ∧
      Scan.ItemsAlike source source' (Layout.joinNewlines finish x items).2
        (Layout.joinNewlines finish' x' items').2 := by
  induction h generalizing x x' with
  | nil => exact ⟨.ok ⟨hx, .eof hfinish⟩, .nil⟩
  | cons hitem hrest ih =>
    cases hitem with
    | error he => exact ⟨.error he, hrest⟩
    | ok hy =>
      rw [Layout.joinNewlines, Layout.joinNewlines, hy.kind]
      split
      · exact ih hy
      · exact ⟨.ok ⟨hx, hy⟩, hrest⟩

theorem afterNewline (h : Alike source source' s s') (hx : x.Alike source source' x') :
    InStep source source' (s.afterNewline x) (s'.afterNewline x') := by
  obtain ⟨hjoin, hitems⟩ := joinNewlines h.finish hx h.items
  unfold Layout.afterNewline
  generalize Layout.joinNewlines s.scan.finish x s.scan.items = o at *
  generalize Layout.joinNewlines s'.scan.finish x' s'.scan.items = o' at *
  obtain ⟨joined, items⟩ := o
  obtain ⟨joined', items'⟩ := o'
  have hs : Alike source source' { s with scan.items := items } { s' with scan.items := items' } :=
    { h with items := hitems }
  cases hjoin with
  | error he => exact ⟨.error he, hs⟩
  | @ok o o' hne =>
    obtain ⟨n, y⟩ := o
    obtain ⟨n', y'⟩ := o'
    obtain ⟨hn, hy⟩ : n.Alike source source' n' ∧ y.Alike source source' y' := hne
    have hends : (s'.last = none ∨ y'.kind = .eof) = (s.last = none ∨ y.kind = .eof) := by
      rw [h.last, hy.kind]
    simp only [hends]
    split
    · exact hs.place hy
    · have hahead : Alike source source' { s with scan.items := items, lookahead := some y }
          { s' with scan.items := items', lookahead := some y' } :=
        { hs with lookahead := .some hy }
      exact hahead.startLine hn

/-- Two machines read alike lexemes, or faults that differ at most in their places. -/
theorem read (h : Alike source source' s s') :
    AnswersAlike (Lexeme.Alike source source') s.read.1 s'.read.1 ∧
      Alike source source' s.read.2 s'.read.2 := by
  obtain ⟨⟨items, finish⟩, lookahead, pending, widths, last⟩ := s
  obtain ⟨⟨items', finish'⟩, lookahead', pending', widths', last'⟩ := s'
  obtain ⟨hitems, hfinish, hlookahead, hpending, hwidths, hlast⟩ := h
  cases hlookahead with
  | some hx => exact ⟨.ok hx, hitems, hfinish, .none, hpending, hwidths, hlast⟩
  | none =>
    cases hitems with
    | nil => exact ⟨.ok (.eof hfinish), .nil, hfinish, .none, hpending, hwidths, hlast⟩
    | cons hitem hrest => exact ⟨hitem, hrest, hfinish, .none, hpending, hwidths, hlast⟩

/-- One call keeps two machines in step. -/
theorem next (h : Alike source source' s s') : InStep source source' s.next s'.next := by
  have hpending := h.pending
  unfold Layout.next
  generalize s.pending = ts at *
  generalize s'.pending = ts' at *
  cases hpending with
  | cons ht hts => exact h.handOut ht hts
  | nil =>
    obtain ⟨hanswer, hstate⟩ := h.read
    generalize s.read = o at *
    generalize s'.read = o' at *
    obtain ⟨item, s₁⟩ := o
    obtain ⟨item', s₁'⟩ := o'
    cases hanswer with
    | error he => exact ⟨.error he, hstate⟩
    | ok hx =>
      simp only [hx.kind]
      split
      · exact hstate.afterNewline hx
      · exact hstate.place hx

/-- Two machines that are alike are drained alike. -/
theorem said_drain (h : Alike source source' s s') :
    (Reader.structured s').drain.said source' = (Reader.structured s).drain.said source := by
  generalize hw : s.weight = w
  induction w using Nat.strongRecOn generalizing s s' with
  | ind w ih =>
    obtain ⟨hanswer, hstate⟩ := h.next
    cases hs : s.next with
    | mk a s₁ =>
      cases hs' : s'.next with
      | mk a' s₁' =>
        have hr : (Reader.structured s).next = (a, .structured s₁) :=
          congrArg (fun o => (o.1, Reader.structured o.2)) hs
        have hr' : (Reader.structured s').next = (a', .structured s₁') :=
          congrArg (fun o => (o.1, Reader.structured o.2)) hs'
        rw [hs, hs'] at hanswer hstate
        cases hanswer with
        | error he =>
          rw [Reader.drain_of_error hr, Reader.drain_of_error hr']
          exact congrArg (fun e => ([], Except.error e)) he
        | @ok t t' ht =>
          by_cases hk : t.kind = .eof
          · rw [Reader.drain_of_eof hr hk, Reader.drain_of_eof hr' (ht.kind.trans hk)]
            exact congrArg (fun r => ([], Except.ok r)) ht
          · have hrest := ih _ (hw ▸ Layout.next_weight_lt hs hk) hstate rfl
            rw [Reader.drain_of_token hr hk,
              Reader.drain_of_token hr' fun hk' => hk (ht.kind.symm.trans hk')]
            exact congrArg₂ (fun r (d : _ × Except LexError _) => (r :: d.1, d.2)) ht hrest

end Alike

end Layout

namespace Variant

/-- Texts whose lexemes are alike are drained alike. -/
theorem said_drain_dented
    (h : Scan.ItemsAlike source source' (Scan.ofText .dented source).items
      (Scan.ofText .dented source').items)
    (hfinish : (Scan.ofText .dented source').finish.width =
      (Scan.ofText .dented source).finish.width) :
    (dented.drain source').said source' = (dented.drain source).said source :=
  Layout.Alike.said_drain ⟨h, hfinish, .none, .nil, rfl, rfl⟩

/-- Texts that are drained alike have the same braced text, or faults that differ at most in their
places. -/
theorem prepare_braced_of_said
    (h : (dented.drain source').said source' = (dented.drain source).said source) :
    (braced.prepare source').mapError LexError.unplaced =
      (braced.prepare source).mapError LexError.unplaced := by
  obtain ⟨hreadings, hfinish⟩ := Prod.mk.inj h
  cases hf : (dented.drain source).finish with
  | error e =>
    cases hf' : (dented.drain source').finish with
    | error e' =>
      rw [hf, hf'] at hfinish
      show (Braces.write _ _ _).mapError _ = (Braces.write _ _ _).mapError _
      rw [Braces.write, Braces.write, hf, hf']
      exact congrArg Except.error (Except.error.inj hfinish)
    | ok t' =>
      rw [hf, hf'] at hfinish
      cases hfinish
  | ok t =>
    cases hf' : (dented.drain source').finish with
    | error e' =>
      rw [hf, hf'] at hfinish
      cases hfinish
    | ok t' =>
      have hr := Drain.readings_of_finish source hf
      have hr' := Drain.readings_of_finish source' hf'
      rw [prepare_braced_of_readings hr, prepare_braced_of_readings hr', hreadings]

end Variant

end Alike

end OffsideBench

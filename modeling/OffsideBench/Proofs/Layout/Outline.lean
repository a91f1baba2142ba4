import OffsideBench.Proofs.Draining
import OffsideBench.Proofs.Layout.Step

/-!
# The stream with structure, line by line

The layout machine works lexeme by lexeme, with a lexeme read ahead and tokens that wait. Seen from
the lines of code it is a recursion: each line turns the open blocks into others, and hands out the
tokens of that turn and then its own (`Layout.outline`).

Main statement: `Variant.drain_dented`, the stream with structure of a text without faults is the
outline of its lines of code.
-/

namespace OffsideBench

open Token (Kind)

/-- What is drained when the tokens `ts` come first. -/
def Drain.behind (ts : List Token) (d : Drain) : Drain := ⟨ts ++ d.tokens, d.finish⟩

theorem Drain.behind_behind (ts us : List Token) (d : Drain) :
    (d.behind us).behind ts = d.behind (ts ++ us) := by
  rw [behind, behind, behind, List.append_assoc]

/-! ## Lines of code -/

/-- A line of code in a row of lexemes. -/
structure Line where
  /-- The last line break in front of the line. A line that was begun before has none. -/
  newline? : Option Lexeme
  /-- The first lexeme of the line. -/
  first : Lexeme
  /-- The other lexemes of the line. -/
  others : List Lexeme

namespace Line

/-- The lexemes of a line. -/
def lexemes (l : Line) : List Lexeme := l.first :: l.others

/-- The tokens of a line. -/
def tokens (l : Line) : List Token := l.lexemes.map Lexeme.token

/-- Puts a lexeme in front of lines. It joins a first line that was begun before. -/
def put (x : Lexeme) : List Line → List Line
  | ⟨none, y, ys⟩ :: ls => ⟨none, x, y :: ys⟩ :: ls
  | ls => ⟨none, x, []⟩ :: ls

/-- Puts a line break in front of lines. Only the last of several line breaks counts. -/
def separate (n : Lexeme) : List Line → List Line
  | [] => []
  | l :: ls => { l with newline? := l.newline?.or (some n) } :: ls

/-- The lines of code in a row of lexemes. -/
def ofLexemes : List Lexeme → List Line
  | [] => []
  | x :: xs => if x.kind = .newline then separate x (ofLexemes xs) else put x (ofLexemes xs)

theorem separate_separate (m n : Lexeme) (ls : List Line) :
    separate m (separate n ls) = separate n ls := by
  cases ls with
  | nil => rfl
  | cons l ls => obtain ⟨_ | _, _, _⟩ := l <;> rfl

theorem ofLexemes_newline {n : Lexeme} (hn : n.kind = .newline) (xs : List Lexeme) :
    ofLexemes (n :: xs) = separate n (ofLexemes xs) := if_pos hn

theorem ofLexemes_put {x : Lexeme} (hx : x.kind ≠ .newline) (xs : List Lexeme) :
    ofLexemes (x :: xs) = put x (ofLexemes xs) := if_neg hx

/-- Of several line breaks in front of lexemes the last one counts. -/
theorem ofLexemes_newlines {ns : List Lexeme} (hns : ∀ n ∈ ns, n.kind = .newline)
    (m : Lexeme) (hm : m.kind = .newline) (xs : List Lexeme) :
    ofLexemes (m :: ns ++ xs) = separate (ns.getLast?.getD m) (ofLexemes xs) := by
  induction ns generalizing m with
  | nil => exact ofLexemes_newline hm xs
  | cons n ns ih =>
    have hn := hns n List.mem_cons_self
    rw [List.cons_append, ofLexemes_newline hm, ih (fun k hk => hns k (List.mem_cons_of_mem _ hk))
      n hn, separate_separate, List.getLast?_cons, Option.getD_some]

/-- Line breaks alone make no line of code. -/
theorem ofLexemes_eq_nil {ns : List Lexeme} (hns : ∀ n ∈ ns, n.kind = .newline) :
    ofLexemes ns = [] := by
  induction ns with
  | nil => rfl
  | cons n ns ih =>
    rw [ofLexemes_newline (hns n List.mem_cons_self),
      ih fun k hk => hns k (List.mem_cons_of_mem _ hk)]
    rfl

end Line

/-! ## The recursion over lines -/

namespace Layout

/-- What a line of code behind the line break `newline` does when blocks of the given widths are
open: the tokens that are handed out in front of it, and the widths that are open on it. -/
def turn (widths : List UInt32) (newline : Lexeme) : Except LexError (List Token × List UInt32) :=
  let width := newline.stop.width
  if widths.headD 0 < width then
    .ok ([{ newline.token with kind := .indent }], width :: widths)
  else
    let left := closeTo width widths
    if width = left.headD 0 then
      .ok (newline.token :: List.replicate (widths.length - left.length)
        (Token.empty .dedent newline.stop.offset), left)
    else
      .error (.inconsistentDedent newline.stop.offset width)

/-- What is drained of lines of code behind a line on which blocks of the given widths are open. -/
def outline (finish : Position) : List UInt32 → List Line → Drain
  | widths, [] =>
    ⟨Token.empty .newline finish.offset ::
      List.replicate widths.length (Token.empty .dedent finish.offset),
      .ok (Lexeme.eof finish).token⟩
  | widths, l :: ls =>
    match l.newline? with
    | none => (outline finish widths ls).behind l.tokens
    | some newline =>
      match turn widths newline with
      | .error e => ⟨[], .error e⟩
      | .ok (ts, widths') => (outline finish widths' ls).behind (ts ++ l.tokens)

/-- What is drained of all lines of code of a text. -/
def outlineText (finish : Position) : List Line → Drain
  | [] => ⟨[], .ok (Lexeme.eof finish).token⟩
  | l :: ls =>
    if 0 < l.first.start.width then
      ⟨[], .error (.unexpectedIndent l.first.start.lineStart l.first.start.width)⟩
    else
      (outline finish [] ls).behind l.tokens

section Outline

variable {finish : Position} {widths : List UInt32}

theorem outline_begun (x : Lexeme) (xs : List Lexeme) (ls : List Line) :
    outline finish widths (⟨none, x, xs⟩ :: ls) =
      (outline finish widths ls).behind (Line.tokens ⟨none, x, xs⟩) := rfl

theorem outline_newline (n x : Lexeme) (xs : List Lexeme) (ls : List Line) :
    outline finish widths (⟨some n, x, xs⟩ :: ls) =
      match turn widths n with
      | .error e => ⟨[], .error e⟩
      | .ok (ts, widths') =>
        (outline finish widths' ls).behind (ts ++ Line.tokens ⟨some n, x, xs⟩) := rfl

/-- A line that has its place among the open blocks is handed out behind its turn. -/
theorem outline_of_turn {l : Line} {n : Lexeme} {ts : List Token} {widths' : List UInt32}
    (hn : l.newline? = some n) (h : turn widths n = .ok (ts, widths')) (ls : List Line) :
    outline finish widths (l :: ls) = (outline finish widths' ls).behind (ts ++ l.tokens) := by
  obtain ⟨_, x, xs⟩ := l
  obtain rfl : _ = some n := hn
  rw [outline_newline, h]

/-- A line that has none is a fault. -/
theorem outline_of_turn_error {l : Line} {n : Lexeme} {e : LexError} (hn : l.newline? = some n)
    (h : turn widths n = .error e) (ls : List Line) :
    outline finish widths (l :: ls) = ⟨[], .error e⟩ := by
  obtain ⟨_, x, xs⟩ := l
  obtain rfl : _ = some n := hn
  rw [outline_newline, h]

theorem outline_put (x : Lexeme) (ls : List Line) :
    outline finish widths (Line.put x ls) = (outline finish widths ls).behind [x.token] := by
  match ls with
  | [] => rfl
  | ⟨none, y, ys⟩ :: ls =>
    rw [Line.put, outline_begun, outline_begun, Drain.behind_behind]
    rfl
  | ⟨some n, y, ys⟩ :: ls => rfl

theorem outline_separate_put (n x : Lexeme) (ls : List Line) :
    outline finish widths (Line.separate n (Line.put x ls)) =
      match turn widths n with
      | .error e => ⟨[], .error e⟩
      | .ok (ts, widths') => (outline finish widths' ls).behind (ts ++ [x.token]) := by
  match ls with
  | [] => rfl
  | ⟨none, y, ys⟩ :: ls =>
    show outline finish widths (⟨some n, x, y :: ys⟩ :: ls) = _
    rw [outline_newline]
    cases turn widths n with
    | error e => rfl
    | ok o =>
      simp only [outline_begun, Drain.behind_behind, List.append_assoc]
      rfl
  | ⟨some m, y, ys⟩ :: ls => rfl

/-- In front of the first line of code line breaks do not matter. -/
theorem outlineText_separate (n : Lexeme) (ls : List Line) :
    outlineText finish (Line.separate n ls) = outlineText finish ls := by
  cases ls <;> rfl

theorem outlineText_put (x : Lexeme) (ls : List Line) :
    outlineText finish (Line.put x ls) =
      if 0 < x.start.width then
        ⟨[], .error (.unexpectedIndent x.start.lineStart x.start.width)⟩
      else
        (outline finish [] ls).behind [x.token] := by
  match ls with
  | [] => rfl
  | ⟨none, y, ys⟩ :: ls =>
    rw [Line.put, outlineText, outline_begun, Drain.behind_behind]
    rfl
  | ⟨some n, y, ys⟩ :: ls => rfl

end Outline

/-! ## The machine follows the recursion -/

theorem startLine_eq_turn (s : Layout) (newline : Lexeme) {ts : List Token}
    {widths : List UInt32} (h : turn s.widths newline = .ok (ts, widths)) :
    ∃ t us, ts = t :: us ∧ s.startLine newline = { s with widths }.handOut t us := by
  unfold turn at h
  unfold startLine top
  simp only at h ⊢
  split at h
  · rename_i hw
    cases h
    exact ⟨_, _, rfl, if_pos hw⟩
  · rename_i hw
    split at h
    · rename_i he
      cases h
      exact ⟨_, _, rfl, (if_neg hw).trans (if_pos he)⟩
    · cases h

theorem startLine_error (s : Layout) (newline : Lexeme) {e : LexError}
    (h : turn s.widths newline = .error e) : (s.startLine newline).1 = .error e := by
  unfold turn at h
  unfold startLine top
  simp only at h ⊢
  split at h
  · cases h
  · rename_i hw
    split at h
    · cases h
    · rename_i he
      cases h
      rw [if_neg hw]
      exact congrArg Prod.fst (if_neg he)

/-- A line opens one block, or closes some and has its place in the innermost one left. -/
theorem turn_cases {widths widths' : List UInt32} {newline : Lexeme} {ts : List Token}
    (h : turn widths newline = .ok (ts, widths')) :
    (widths.headD 0 < newline.stop.width ∧ ts = [{ newline.token with kind := .indent }] ∧
        widths' = newline.stop.width :: widths) ∨
      (¬ widths.headD 0 < newline.stop.width ∧
        ts = newline.token :: List.replicate (widths.length - widths'.length)
          (Token.empty .dedent newline.stop.offset) ∧
        widths' = closeTo newline.stop.width widths ∧ newline.stop.width = widths'.headD 0) := by
  unfold turn at h
  simp only at h
  split at h
  · rename_i hw
    cases h
    exact .inl ⟨hw, rfl, rfl⟩
  · rename_i hw
    split at h
    · rename_i he
      cases h
      exact .inr ⟨hw, rfl, rfl, he⟩
    · cases h

theorem kind_of_turn {widths widths' : List UInt32} {newline : Lexeme} {ts : List Token}
    (hn : newline.kind = .newline) (h : turn widths newline = .ok (ts, widths')) :
    ∀ t ∈ ts, t.kind ≠ .eof := by
  intro t ht e
  rcases turn_cases h with ⟨-, rfl, -⟩ | ⟨-, rfl, -⟩
  · obtain rfl := List.mem_singleton.1 ht
    cases e
  · rcases List.mem_cons.1 ht with rfl | ht
    · rw [Lexeme.token, hn] at e
      cases e
    · rw [List.eq_of_mem_replicate ht] at e
      cases e

theorem endsLine_of_isContent {k : Kind} (h : k.isContent = true) : endsLine (some k) = false := by
  revert h
  cases k <;> decide

theorem drain_handOut {s s' : Layout} {t : Token} {us : List Token} (h : s.next = s'.handOut t us)
    (ht : t.kind ≠ .eof) :
    (Reader.structured s).drain =
      (Reader.structured { s' with pending := us, last := some t.kind }).drain.behind [t] := by
  have hr : (Reader.structured s).next =
      (.ok t, .structured { s' with pending := us, last := some t.kind }) := by
    rw [Reader.next, h]
    rfl
  rw [Reader.drain_of_token hr ht]
  rfl

/-- Tokens that wait are handed out before anything else is done. -/
theorem drain_pending {s : Layout} {ts us : List Token} (hl : s.last ≠ none)
    (hp : s.pending = ts ++ us) (h : ∀ t ∈ ts, t.kind ≠ .eof) :
    ∃ last, last ≠ none ∧ (Reader.structured s).drain =
      (Reader.structured { s with pending := us, last }).drain.behind ts := by
  induction ts generalizing s with
  | nil =>
    obtain ⟨scan, lookahead, pending, widths, last⟩ := s
    obtain rfl : pending = us := hp
    exact ⟨last, hl, rfl⟩
  | cons t ts ih =>
    have hnext : s.next = s.handOut t (ts ++ us) := by
      unfold next
      rw [hp]
      rfl
    obtain ⟨last, hlast, hdrain⟩ := @ih { s with pending := ts ++ us, last := some t.kind }
      (by simp) rfl fun u hu => h u (List.mem_cons_of_mem _ hu)
    refine ⟨last, hlast, ?_⟩
    rw [drain_handOut hnext (h t List.mem_cons_self), hdrain, Drain.behind_behind]
    rfl

/-- What is drained at the end of the text, behind tokens that wait. -/
theorem drain_pending_eof {s : Layout} {ts : List Token} {t : Token} (hl : s.last ≠ none)
    (hp : s.pending = ts ++ [t]) (h : ∀ u ∈ ts, u.kind ≠ .eof) (ht : t.kind = .eof) :
    (Reader.structured s).drain = ⟨ts, .ok t⟩ := by
  obtain ⟨last, -, hdrain⟩ := drain_pending hl hp h
  have hr : (Reader.structured { s with pending := [t], last }).next =
      (.ok t, .structured { s with pending := [], last := some t.kind }) := rfl
  rw [hdrain, Reader.drain_of_eof hr ht, Drain.behind, List.append_nil]

theorem place_of_last {s : Layout} {x : Lexeme} (hl : s.last ≠ none) (hx : x.kind ≠ .eof) :
    s.place x = s.handOut x.token [] := by
  rw [place, if_neg hx, if_neg fun h => hl h.1]

/-- A line that opens or closes blocks: the tokens of the turn come first, then its first lexeme,
and the machine is in the middle of the line. -/
theorem drain_startLine {s m : Layout} {newline x : Lexeme} {ts : List Token}
    {widths : List UInt32} (hn : newline.kind = .newline) (hx : x.kind.isContent = true)
    (ha : m.lookahead = some x) (hturn : turn m.widths newline = .ok (ts, widths))
    (h : s.next = m.startLine newline) :
    (Reader.structured s).drain =
      (Reader.structured { m with
        lookahead := none, pending := [], widths, last := some x.kind }).drain.behind
        (ts ++ [x.token]) := by
  have hkind := kind_of_turn hn hturn
  obtain ⟨t, us, rfl, hstart⟩ := startLine_eq_turn m newline hturn
  have hxn : x.kind ≠ .newline := Kind.ne_of_isContent hx rfl
  have hxe : x.kind ≠ .eof := Kind.ne_of_isContent hx rfl
  rw [drain_handOut (h.trans hstart) (hkind t List.mem_cons_self)]
  obtain ⟨last, hlast, hdrain⟩ := @drain_pending
    { m with widths, pending := us, last := some t.kind } us [] (by simp) (List.append_nil us).symm
    fun u hu => hkind u (List.mem_cons_of_mem _ hu)
  -- Now nothing waits, and the lexeme that was read ahead is next.
  have hlead : Leads m.scan.finish ({ m with widths, pending := [], last } : Layout).stream []
      (.ok x) m.scan.items := by
    rw [stream, ha]
    exact .lexeme hxn _
  have hnext := @next_of_leads { m with widths, pending := [], last } _ _ _ rfl
    (by rintro y hy; rw [ha] at hy; cases hy; exact hxn) hlead
  have hplace := hnext.trans (place_of_last hlast hxe)
  rw [hdrain, drain_handOut hplace hxe, Drain.behind_behind, Drain.behind_behind]
  rfl

end Layout

/-! ## The machine reads lines -/

/-- A stream without faults leads over line breaks to the end of the text or to a lexeme of a
line. -/
theorem Leads.exists_of_map_ok (finish : Position) (xs : List Lexeme) :
    ∃ ns, (∀ n ∈ ns, n.kind = .newline) ∧
      ((xs = ns ∧ Leads finish (xs.map .ok) ns (.ok (.eof finish)) []) ∨
        ∃ x ys, xs = ns ++ x :: ys ∧ x.kind ≠ .newline ∧
          Leads finish (xs.map .ok) ns (.ok x) (ys.map .ok)) := by
  induction xs with
  | nil => exact ⟨[], by simp, .inl ⟨rfl, .done⟩⟩
  | cons n xs ih =>
    by_cases hn : n.kind = .newline
    · obtain ⟨ns, hns, h⟩ := ih
      refine ⟨n :: ns, ?_, ?_⟩
      · intro m hm
        rcases List.mem_cons.1 hm with rfl | hm
        · exact hn
        · exact hns m hm
      · rcases h with ⟨rfl, h⟩ | ⟨x, ys, rfl, hx, h⟩
        · exact .inl ⟨rfl, .newline hn h⟩
        · exact .inr ⟨x, ys, rfl, hx, .newline hn h⟩
    · exact ⟨[], by simp, .inr ⟨n, xs, rfl, hn, .lexeme hn _⟩⟩

namespace Layout

/-- Where the text ends, line breaks in front of its end do not matter. -/
theorem resume_eof (s : Layout) (newline? : Option Lexeme) (p : Position) :
    s.resume newline? (.eof p) = s.close (.eof p) := by
  cases newline? with
  | none => rfl
  | some n => exact if_pos (.inr rfl)

/-- The machine is in the middle of a line, with nothing that waits, and is to read the lexemes
`xs`. -/
structure InLine (s : Layout) (xs : List Lexeme) : Prop where
  pending : s.pending = []
  lookahead : s.lookahead = none
  last : endsLine s.last = false
  items : s.scan.items = xs.map .ok

namespace InLine

variable {s : Layout} {x m : Lexeme} {ns xs : List Lexeme}

theorem last_ne_none (h : s.InLine xs) : s.last ≠ none := by
  intro e
  have hl := h.last
  rw [e] at hl
  cases hl

theorem next_of_leads (h : s.InLine xs) {item : Except LexError Lexeme}
    {rest : List (Except LexError Lexeme)}
    (hlead : Leads s.scan.finish (xs.map .ok) ns item rest) :
    s.next = (s.goOn rest).meet ns.getLast? item := by
  refine Layout.next_of_leads h.pending (by simp [h.lookahead]) ?_
  rw [stream, h.lookahead, h.items]
  exact hlead

theorem next_of_newlines (h : s.InLine (m :: ns ++ x :: xs)) (hx : x.kind.isContent = true)
    (hlead : Leads s.scan.finish ((m :: ns ++ x :: xs).map .ok) (m :: ns) (.ok x) (xs.map .ok)) :
    s.next = { s.goOn (xs.map .ok) with lookahead := some x }.startLine (ns.getLast?.getD m) := by
  have hnext := h.next_of_leads hlead
  have hxe : x.kind ≠ .eof := Kind.ne_of_isContent hx rfl
  rw [List.getLast?_cons, meet, resume, if_neg fun e => e.elim h.last_ne_none hxe] at hnext
  exact hnext

/-- At the end of the text the line is ended and all blocks are closed. -/
theorem drain_end (h : s.InLine xs)
    (hlead : Leads s.scan.finish (xs.map .ok) ns (.ok (.eof s.scan.finish)) []) :
    (Reader.structured s).drain = outline s.scan.finish s.widths [] := by
  have hnext := h.next_of_leads hlead
  rw [meet, resume_eof, close, goOn, if_neg (by simp [h.last])] at hnext
  rw [outline, drain_handOut hnext (by rintro ⟨⟩)]
  rw [drain_pending_eof (by simp) rfl (fun u hu => ?_) rfl]
  · rfl
  · rw [List.eq_of_mem_replicate hu]
    rintro ⟨⟩

/-- A further lexeme of the line is handed out. -/
theorem drain_lexeme (h : s.InLine (x :: xs)) (hx : x.kind.isContent = true) :
    ∃ s' : Layout, s'.InLine xs ∧ s'.widths = s.widths ∧ s'.scan.finish = s.scan.finish ∧
      (Reader.structured s).drain = (Reader.structured s').drain.behind [x.token] := by
  have hxn : x.kind ≠ .newline := Kind.ne_of_isContent hx rfl
  have hxe : x.kind ≠ .eof := Kind.ne_of_isContent hx rfl
  have hnext := h.next_of_leads (.lexeme hxn (xs.map .ok))
  have hplace := hnext.trans (place_of_last (s := s.goOn (xs.map .ok)) h.last_ne_none hxe)
  refine ⟨{ s.goOn (xs.map .ok) with pending := [], last := some x.kind }, ?_, rfl, rfl,
    drain_handOut hplace hxe⟩
  exact ⟨rfl, rfl, endsLine_of_isContent hx, rfl⟩

/-- Behind line breaks the next line begins, if it has its place among the open blocks. -/
theorem drain_turn (h : s.InLine (m :: ns ++ x :: xs)) (hm : ∀ n ∈ m :: ns, n.kind = .newline)
    (hx : x.kind.isContent = true) {ts : List Token} {widths : List UInt32}
    (hlead : Leads s.scan.finish ((m :: ns ++ x :: xs).map .ok) (m :: ns) (.ok x) (xs.map .ok))
    (hturn : turn s.widths (ns.getLast?.getD m) = .ok (ts, widths)) :
    ∃ s' : Layout, s'.InLine xs ∧ s'.widths = widths ∧ s'.scan.finish = s.scan.finish ∧
      (Reader.structured s).drain = (Reader.structured s').drain.behind (ts ++ [x.token]) := by
  have hlast : (ns.getLast?.getD m).kind = .newline := by
    cases hg : ns.getLast? with
    | none => exact hm m List.mem_cons_self
    | some n => exact hm n (List.mem_cons_of_mem _ (List.mem_of_getLast? hg))
  refine ⟨{ s.goOn (xs.map .ok) with pending := [], widths, last := some x.kind }, ?_, rfl, rfl,
    drain_startLine (m := { s.goOn (xs.map .ok) with lookahead := some x }) hlast hx rfl hturn
      (h.next_of_newlines hx hlead)⟩
  exact ⟨rfl, rfl, endsLine_of_isContent hx, rfl⟩

/-- A line that has no place among the open blocks is a fault. -/
theorem drain_turn_error (h : s.InLine (m :: ns ++ x :: xs)) (hx : x.kind.isContent = true)
    {e : LexError}
    (hlead : Leads s.scan.finish ((m :: ns ++ x :: xs).map .ok) (m :: ns) (.ok x) (xs.map .ok))
    (hturn : turn s.widths (ns.getLast?.getD m) = .error e) :
    (Reader.structured s).drain = ⟨[], .error e⟩ := by
  have hnext := h.next_of_newlines hx hlead
  have hr : (Reader.structured s).next = (.error e, .structured s.next.2) := by
    refine Prod.ext ?_ rfl
    rw [Reader.next, hnext]
    exact startLine_error _ _ hturn
  exact Reader.drain_of_error hr

/-- A machine in the middle of a line drains to the outline of what is left. -/
theorem drain_eq_outline (h : s.InLine xs)
    (hxs : ∀ x ∈ xs, x.kind.isContent = true ∨ x.kind = .newline) :
    (Reader.structured s).drain = outline s.scan.finish s.widths (Line.ofLexemes xs) := by
  induction hlen : xs.length using Nat.strongRecOn generalizing s xs with
  | ind n ih =>
    obtain ⟨ns, hns, ⟨rfl, hlead⟩ | ⟨x, ys, rfl, hxn, hlead⟩⟩ :=
      Leads.exists_of_map_ok s.scan.finish xs
    · rw [Line.ofLexemes_eq_nil hns]
      exact h.drain_end hlead
    · have hx : x.kind.isContent = true := (hxs x (by simp)).resolve_right hxn
      have hys : ∀ y ∈ ys, y.kind.isContent = true ∨ y.kind = .newline := fun y hy =>
        hxs y (by simp [hy])
      have hlt : ys.length < n := by
        rw [← hlen, List.length_append, List.length_cons]
        omega
      cases ns with
      | nil =>
        obtain ⟨s', hs', hw, hf, hdrain⟩ := h.drain_lexeme hx
        rw [List.nil_append, Line.ofLexemes_put hxn, outline_put, hdrain, ih _ hlt hs' hys rfl, hw,
          hf]
      | cons m ns =>
        have hm := hns m List.mem_cons_self
        have hrest : ∀ n ∈ ns, n.kind = .newline := fun n hn => hns n (List.mem_cons_of_mem _ hn)
        rw [Line.ofLexemes_newlines hrest m hm, Line.ofLexemes_put hxn, outline_separate_put]
        cases hturn : turn s.widths (ns.getLast?.getD m) with
        | error e => exact h.drain_turn_error hx hlead hturn
        | ok o =>
          obtain ⟨s', hs', hw, hf, hdrain⟩ := h.drain_turn hns hx hlead hturn
          rw [hdrain, ih _ hlt hs' hys rfl, hw, hf]

end InLine

/-- A text without code has nothing to end or to close. -/
theorem close_of_last_none {s : Layout} (hl : s.last = none) (hw : s.widths = []) (p : Position) :
    (s.close (.eof p)).1 = .ok (Lexeme.eof p).token := by
  obtain ⟨scan, lookahead, pending, widths, last⟩ := s
  obtain rfl : last = none := hl
  obtain rfl : widths = [] := hw
  rfl

/-- A machine in front of a text without faults drains to the outline of the text. -/
theorem drain_eq_outlineText (finish : Position) {xs : List Lexeme}
    (hxs : ∀ x ∈ xs, x.kind.isContent = true ∨ x.kind = .newline) :
    (Reader.structured { scan := ⟨xs.map .ok, finish⟩ }).drain =
      outlineText finish (Line.ofLexemes xs) := by
  generalize hs : ({ scan := ⟨xs.map .ok, finish⟩ } : Layout) = s
  have hp : s.pending = [] := by rw [← hs]
  have hl : s.last = none := by rw [← hs]
  have hstream : s.stream = xs.map .ok := by rw [← hs]; rfl
  have hla : ∀ x, s.lookahead = some x → x.kind ≠ .newline := by rw [← hs]; simp
  have hf : s.scan.finish = finish := by rw [← hs]
  have hw : s.widths = [] := by rw [← hs]
  obtain ⟨ns, hns, ⟨rfl, hlead⟩ | ⟨x, ys, rfl, hxn, hlead⟩⟩ := Leads.exists_of_map_ok finish xs
  · have hnext := next_of_leads hp hla (by rw [hstream, hf]; exact hlead)
    rw [meet, resume_eof] at hnext
    have hr : (Reader.structured s).next =
        (.ok (Lexeme.eof finish).token, .structured s.next.2) := by
      refine Prod.ext ?_ rfl
      rw [Reader.next, hnext]
      exact close_of_last_none (s := s.goOn []) hl hw finish
    rw [Line.ofLexemes_eq_nil hns, outlineText, Reader.drain_of_eof hr rfl]
  · have hx : x.kind.isContent = true := (hxs x (by simp)).resolve_right hxn
    have hxe : x.kind ≠ .eof := Kind.ne_of_isContent hx rfl
    have hys : ∀ y ∈ ys, y.kind.isContent = true ∨ y.kind = .newline := fun y hy =>
      hxs y (by simp [hy])
    have hnext := next_of_leads hp hla (by rw [hstream, hf]; exact hlead)
    have hresume : (s.goOn (ys.map .ok)).meet ns.getLast? (.ok x) =
        (s.goOn (ys.map .ok)).place x := by
      cases ns.getLast? with
      | none => rfl
      | some n => exact if_pos (.inl hl)
    rw [hresume, place, if_neg hxe] at hnext
    have hlines : outlineText finish (Line.ofLexemes (ns ++ x :: ys)) =
        outlineText finish (Line.put x (Line.ofLexemes ys)) := by
      cases ns with
      | nil => rw [List.nil_append, Line.ofLexemes_put hxn]
      | cons m ns =>
        rw [Line.ofLexemes_newlines (fun n hn => hns n (List.mem_cons_of_mem _ hn)) m
          (hns m List.mem_cons_self), outlineText_separate, Line.ofLexemes_put hxn]
    rw [hlines, outlineText_put]
    by_cases hwidth : 0 < x.start.width
    · rw [if_pos ⟨hl, hwidth⟩] at hnext
      rw [if_pos hwidth]
      have hr : (Reader.structured s).next =
          (.error (.unexpectedIndent x.start.lineStart x.start.width), .structured s.next.2) := by
        rw [Reader.next, hnext]
      exact Reader.drain_of_error hr
    · rw [if_neg fun h => hwidth h.2] at hnext
      rw [if_neg hwidth, drain_handOut hnext hxe]
      have hline : InLine { s.goOn (ys.map .ok) with pending := [], last := some x.kind } ys :=
        ⟨rfl, rfl, endsLine_of_isContent hx, rfl⟩
      refine congrArg (Drain.behind [x.token]) ((hline.drain_eq_outline hys).trans ?_)
      show outline s.scan.finish s.widths _ = outline finish [] _
      rw [hf, hw]

end Layout

namespace Variant

/-- The stream with structure of a text without faults is the outline of its lines of code. -/
theorem drain_dented {source : String} {xs : List Lexeme}
    (h : (Scan.ofText .dented source).items = xs.map .ok) :
    dented.drain source =
      Layout.outlineText (Scan.ofText .dented source).finish (Line.ofLexemes xs) := by
  rw [← Layout.drain_eq_outlineText _ (Scan.kind_of_items h), ← h]
  rfl

end Variant

end OffsideBench

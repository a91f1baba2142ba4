import OffsideBench.Proofs.Layout.Balance

/-!
# Coming to rest

A machine that is asked for tokens with structure again and again, over faults, comes to the end of
its text. Some of its answers take nothing of the text, so `Layout.budget` measures what is left: a
line that opens a block pays with its line break and its first lexeme for the `indent` and for the
`dedent` that closes the block again, and a token pays for the line end that may have to be added
behind it. Behind that end the machine is `Layout.resting`: it gives the end to every call, of
either kind, and stays as it is.

Main statements: `Layout.next_pays`, `Layout.next_of_isEnd` for the stream with structure, and
`Layout.nextRaw_of_isEnd` for the stream without.
-/

namespace OffsideBench

open Token (Kind)

/-- Whether an answer is the end of a text. -/
def isEnd : Except LexError Token → Bool
  | .ok t => t.kind == .eof
  | .error _ => false

/-- The answer behind all tokens of `source`. -/
def endOf (source : String) : Except LexError Token :=
  .ok (Token.empty .eof source.utf8ByteSize)

theorem isEnd_ok {t : Token} : isEnd (.ok t) = true ↔ t.kind = .eof := beq_iff_eq

theorem Position.length_le_past_offset (p : Position) (cs : List Char) :
    p.offset + cs.length ≤ (p.past cs).offset := by
  induction cs generalizing p with
  | nil => exact Nat.le_refl _
  | cons c cs ih =>
    have hrest := ih (p.next c)
    have hpos := c.utf8Size_pos
    rw [next_offset] at hrest
    rw [past_cons, List.length_cons]
    omega

/-- A text holds no more items than bytes. -/
theorem Scan.length_items_le_bytes (d : Dialect) (source : String) :
    (Scan.ofText d source).items.length ≤ source.utf8ByteSize := by
  have hitems := Scan.length_items_le d .origin source.toList
  have hchars := Position.origin.length_le_past_offset source.toList
  have hbytes := Position.past_offset .origin source.toList
  rw [String.ofList_toList] at hbytes
  have horigin : Position.origin.offset = 0 := rfl
  rw [Scan.ofText]
  omega

namespace Layout

/-! ## The machine at rest -/

/-- The machine behind the end of its text. -/
def resting (finish : Position) : Layout := { scan := ⟨[], finish⟩, last := some .eof }

/-- A machine at rest gives the end of its text and stays at rest. -/
theorem call_resting (finish : Position) (c : Call) :
    (resting finish).call c = (.ok (Lexeme.eof finish).token, resting finish) := by
  cases c <;> rfl

theorem eq_of_mem_answers_resting {finish : Position} {calls : List Call}
    {a : Except LexError Token} (h : a ∈ (resting finish).answers calls) :
    a = .ok (Lexeme.eof finish).token := by
  induction calls with
  | nil => exact absurd h List.not_mem_nil
  | cons c calls ih =>
    rw [answers, call_resting] at h
    rcases List.mem_cons.1 h with h | h
    · exact h
    · exact ih h

theorem eq_resting {s : Layout} {finish : Position} (hf : s.scan.finish = finish)
    (hs : s.stream = []) (hp : s.pending = []) (hw : s.widths = []) (hl : s.last = some .eof) :
    s = resting finish := by
  obtain ⟨⟨items, finish'⟩, lookahead, pending, widths, last⟩ := s
  obtain ⟨hahead, hitems⟩ := List.append_eq_nil_iff.1 hs
  cases lookahead with
  | some x => cases hahead
  | none =>
    subst hf hp hw hl
    obtain rfl : items = [] := hitems
    rfl

/-! ## What is left to answer -/

/-- A bound on the answers in front of the end of the text, faults included. -/
def budget (s : Layout) : Nat :=
  2 * s.stream.length + s.widths.length + structural s.pending +
    if endsLine s.last then 0 else 1

/-- The end of the text that a machine will hand out is that of `source`. -/
structure EndsWith (source : String) (s : Layout) : Prop where
  /-- The end that is still to be met. -/
  finish : (Lexeme.eof s.scan.finish).token = Token.empty .eof source.utf8ByteSize
  /-- The end that already waits. -/
  pending : ∀ t ∈ s.pending, t.kind = .eof → t = Token.empty .eof source.utf8ByteSize

/-- An answer of the stream with structure is paid for out of a budget, or it is the end of
`source`. -/
structure Pays (source : String) (budget : Nat) (answer : Except LexError Token) (s' : Layout) :
    Prop where
  /-- The end of the text stays the same. -/
  ends : EndsWith source s'
  /-- What is no end is paid for. -/
  spent : isEnd answer = false → s'.budget < budget
  /-- With the end there is nothing left to read. -/
  done : isEnd answer = true → answer = endOf source ∧ s'.stream = [] ∧ s'.last = some .eof

theorem endsLine_of_not_isContent {k : Kind} (h : k.isContent = false) :
    endsLine (some k) = true := by
  cases k <;> first | rfl | cases h

section Steps

variable {source : String} {s : Layout} {b : Nat}

theorem EndsWith.congr (h : EndsWith source s) {s' : Layout} (hf : s'.scan.finish = s.scan.finish)
    (hp : s'.pending = s.pending) : EndsWith source s' := by
  refine ⟨?_, ?_⟩
  · rw [hf]
    exact h.finish
  · rw [hp]
    exact h.pending

/-- A fault is paid for by what was read over. -/
theorem Pays.of_error (h : EndsWith source s) (hb : s.budget < b) (e : LexError) :
    Pays source b (.error e) s := by
  refine ⟨h, fun _ => hb, ?_⟩
  intro he
  cases he

/-- A token other than the end of the text is handed out, and `us` waits behind it. -/
theorem Pays.of_handOut (h : EndsWith source s) {t : Token} {us : List Token}
    (ht : t.kind ≠ .eof)
    (hus : ∀ u ∈ us, u.kind = .eof → u = Token.empty .eof source.utf8ByteSize)
    (hb : 2 * s.stream.length + s.widths.length + structural us +
      (if endsLine (some t.kind) then 0 else 1) < b) :
    Pays source b (s.handOut t us).1 (s.handOut t us).2 := by
  refine ⟨⟨h.finish, hus⟩, fun _ => hb, ?_⟩
  intro he
  exact absurd (isEnd_ok.1 he) ht

/-- The end of the text is handed out when nothing is left to read. -/
theorem Pays.of_handOut_eof (h : EndsWith source s) (hs : s.stream = []) {t : Token}
    {us : List Token} (ht : t = Token.empty .eof source.utf8ByteSize)
    (hus : ∀ u ∈ us, u.kind = .eof → u = Token.empty .eof source.utf8ByteSize) :
    Pays source b (s.handOut t us).1 (s.handOut t us).2 := by
  subst ht
  refine ⟨⟨h.finish, hus⟩, ?_, fun _ => ⟨rfl, hs, rfl⟩⟩
  intro he
  cases he

/-- The closing of the last line and of all blocks was paid for when they were opened. -/
theorem close_pays (h : EndsWith source s) (hs : s.stream = [])
    {x : Lexeme} (hx : x.token = Token.empty .eof source.utf8ByteSize) (hb : s.budget ≤ b) :
    Pays source b (s.close x).1 (s.close x).2 := by
  have hclosed : EndsWith source { s with widths := [] } := h.congr rfl rfl
  have hwait : ∀ n, ∀ u ∈ List.replicate n (Token.empty .dedent x.start.offset) ++ [x.token],
      u.kind = .eof → u = Token.empty .eof source.utf8ByteSize := by
    intro n u hu hk
    rcases List.mem_append.1 hu with hu | hu
    · rw [List.eq_of_mem_replicate hu] at hk
      cases hk
    · rw [List.mem_singleton.1 hu]
      exact hx
  have hcost : ∀ n, structural (List.replicate n (Token.empty .dedent x.start.offset) ++
      [x.token]) = n := by
    intro n
    rw [structural_append, structural_dedents, structural_eof (hx ▸ rfl), Nat.add_zero]
  unfold close
  by_cases hl : endsLine s.last
  · rw [if_pos hl]
    cases hw : s.widths with
    | nil => exact .of_handOut_eof hclosed hs hx (by simp)
    | cons w ws =>
      refine .of_handOut hclosed (Kind.noConfusion ·) (hwait ws.length) ?_
      have hdedent : endsLine (some (Token.empty .dedent x.start.offset).kind) = true := rfl
      simp only [budget, stream, hw, hcost, if_pos hdedent, List.length_cons, List.length_nil]
        at hb ⊢
      omega
  · rw [if_neg hl]
    refine .of_handOut hclosed (Kind.noConfusion ·) (hwait s.widths.length) ?_
    have hnewline : endsLine (some (Token.empty .newline x.start.offset).kind) = true := rfl
    simp only [budget, stream, hcost, if_pos hnewline, if_neg hl, List.length_nil] at hb ⊢
    omega

/-- A lexeme pays for itself and for a line end behind it. -/
theorem place_pays (h : EndsWith source s) {x : Lexeme} (hx : x.kind ≠ .eof)
    (hb : s.budget + 2 ≤ b) : Pays source b (s.place x).1 (s.place x).2 := by
  unfold place
  rw [if_neg hx]
  split
  · exact .of_error h (by omega) _
  · refine .of_handOut h hx (by simp) ?_
    have hline : (if endsLine (some x.token.kind) then 0 else 1) ≤ 1 := by split <;> omega
    rw [budget] at hb
    rw [structural_nil]
    omega

/-- A line break pays for an `indent`, or for itself: the closings behind it are paid for by the
blocks that they close. -/
theorem startLine_pays (h : EndsWith source s) (hp : s.pending = []) {newline : Lexeme}
    (hn : newline.kind = .newline) (hb : s.budget + 2 ≤ b) :
    Pays source b (s.startLine newline).1 (s.startLine newline).2 := by
  have hk : newline.token.kind = .newline := hn
  have hne : newline.token.kind ≠ .eof := by
    rw [hk]
    decide
  have hdedents : ∀ n, ∀ u ∈ List.replicate n (Token.empty .dedent newline.stop.offset),
      u.kind = .eof → u = Token.empty .eof source.utf8ByteSize := by
    intro n u hu he
    rw [List.eq_of_mem_replicate hu] at he
    cases he
  have hends : endsLine (some newline.token.kind) = true := by
    rw [hk]
    rfl
  have hle := closeTo_length_le newline.stop.width s.widths
  simp only [budget, stream, hp, structural_nil] at hb
  unfold startLine
  simp only
  split
  · have hopen : EndsWith source { s with widths := newline.stop.width :: s.widths } :=
      h.congr rfl rfl
    refine .of_handOut hopen (Kind.noConfusion ·) (by simp) ?_
    have hindent : endsLine (some .indent) = true := rfl
    simp only [stream, structural_nil, if_pos hindent, List.length_cons]
    omega
  · split
    · have hclose : EndsWith source { s with widths := closeTo newline.stop.width s.widths } :=
        h.congr rfl rfl
      refine .of_handOut hclose hne (hdedents _) ?_
      simp only [stream, structural_dedents, if_pos hends]
      omega
    · have hwait : EndsWith source { s with
          widths := closeTo newline.stop.width s.widths
          pending := newline.token :: List.replicate
            (s.widths.length - (closeTo newline.stop.width s.widths).length)
            (Token.empty .dedent newline.stop.offset) } := by
        refine ⟨h.finish, ?_⟩
        intro u hu he
        rcases List.mem_cons.1 hu with rfl | hu
        · exact absurd he hne
        · exact hdedents _ u hu he
      refine .of_error hwait ?_ _
      simp only [budget, stream, structural_cons hne, structural_dedents]
      omega

/-- The end of the text is met in the same way behind a line break and elsewhere. -/
theorem meet_eof (s : Layout) (newline? : Option Lexeme) (p : Position) :
    s.meet newline? (.ok (.eof p)) = s.close (.eof p) := by
  have hplace : s.place (.eof p) = s.close (.eof p) := if_pos rfl
  cases newline? with
  | none => exact hplace
  | some n => exact (if_pos (.inr rfl)).trans hplace

/-- An item that is met behind a line break is paid for together with that line break, since the
lexeme of the item may be kept for later. -/
theorem meet_pays (h : EndsWith source s) (hp : s.pending = []) (hl : s.lookahead = none)
    {newline? : Option Lexeme} (hn : ∀ n, newline? = some n → n.kind = .newline)
    {item : Except LexError Lexeme} (hi : ∀ x, item = .ok x → x.kind ≠ .eof)
    (hb : s.budget + 2 * (newline?.toList.length + 1) ≤ b) :
    Pays source b (s.meet newline? item).1 (s.meet newline? item).2 := by
  cases item with
  | error e => exact .of_error h (by omega) e
  | ok x =>
    have hplace : Pays source b (s.place x).1 (s.place x).2 := place_pays h (hi x rfl) (by omega)
    cases newline? with
    | none => exact hplace
    | some n =>
      rw [meet, resume]
      split
      · exact hplace
      · have hahead : EndsWith source { s with lookahead := some x } := h.congr rfl rfl
        refine startLine_pays hahead hp (hn n rfl) ?_
        simp only [budget, stream, hl, Option.toList_some, Option.toList_none, List.map_cons,
          List.map_nil, List.cons_append, List.nil_append, List.length_cons, List.length_nil]
          at hb ⊢
        omega

/-- A call for the next token with structure is paid for, or gives the end of the text. -/
theorem next_pays (ho : Orderly source s) (h : EndsWith source s) :
    Pays source s.budget s.next.1 s.next.2 := by
  cases hp : s.pending with
  | cons t us =>
    have hnext : s.next = s.handOut t us := by rw [next, hp]
    have hus : ∀ u ∈ us, u.kind = .eof → u = Token.empty .eof source.utf8ByteSize := by
      intro u hu
      exact h.pending u (hp ▸ List.mem_cons_of_mem _ hu)
    have hmem : t ∈ s.pending := hp ▸ List.mem_cons_self
    rw [hnext]
    by_cases ht : t.kind = .eof
    · exact .of_handOut_eof h (ho.closed ⟨t, hmem, ht⟩) (h.pending t hmem ht) hus
    · refine .of_handOut h ht hus ?_
      rw [if_pos (endsLine_of_not_isContent (ho.pending t hmem)), budget, hp, structural_cons ht]
      omega
  | nil =>
    obtain ⟨newlines, item, rest, hlead⟩ := Leads.exists_leads s.scan.finish s.stream
    obtain ⟨-, hi⟩ := ho.goOn hp hlead
    have hgo : EndsWith source (s.goOn rest) := h.congr rfl rfl
    have hbudget : (s.goOn rest).budget + 2 * s.stream.length = s.budget + 2 * rest.length := by
      have hrest : (s.goOn rest).budget = 2 * rest.length + s.widths.length +
        structural s.pending + if endsLine s.last then 0 else 1 := rfl
      rw [hrest, budget]
      omega
    rw [next_of_leads hp ho.kind_lookahead hlead]
    rcases hi with ⟨hm, -⟩ | ⟨rfl, rfl⟩
    · have hne : ∀ x, item = .ok x → x.kind ≠ .eof := by
        rintro x rfl
        exact Scan.kind_ne_eof hm
      rcases hlead.eq_append with hs | ⟨-, he, -⟩
      · have hlength := congrArg List.length hs
        have hlast : newlines.getLast?.toList.length ≤ newlines.length := by
          cases newlines with
          | nil => exact Nat.le_refl _
          | cons n newlines => rw [List.getLast?_cons, List.length_cons]; simp
        rw [List.length_append, List.length_map, List.length_cons] at hlength
        refine meet_pays hgo hp rfl ?_ hne (by omega)
        intro n hn
        exact hlead.kind_newlines n (List.mem_of_getLast? hn)
      · exact absurd rfl (hne _ he)
    · rw [meet_eof]
      refine close_pays hgo rfl h.finish ?_
      rw [List.length_nil] at hbudget
      omega

/-- With the end of the text a machine comes to rest. -/
theorem next_of_isEnd {ts : List Token} (ho : Orderly source s) (hb : Balanced s ts)
    (h : EndsWith source s) (hend : isEnd s.next.1 = true) :
    s.next.1 = endOf source ∧ ∃ finish, (Lexeme.eof finish).token =
      Token.empty .eof source.utf8ByteSize ∧ s.next.2 = resting finish := by
  have hpays := next_pays ho h
  obtain ⟨hanswer, hs, hl⟩ := hpays.done hend
  obtain ⟨hp, hw⟩ := (hb.next ho).rests _ hanswer rfl
  exact ⟨hanswer, s.next.2.scan.finish, hpays.ends.finish, eq_resting rfl hs hp hw hl⟩

/-! ## The stream without structure -/

theorem nextRaw_of_stream_nil (hs : s.stream = []) :
    s.nextRaw = (.ok (Lexeme.eof s.scan.finish).token, s) := by
  obtain ⟨⟨items, finish⟩, lookahead, pending, widths, last⟩ := s
  obtain ⟨hahead, hitems⟩ := List.append_eq_nil_iff.1 hs
  obtain rfl : items = [] := hitems
  cases lookahead with
  | some x => cases hahead
  | none => rfl

theorem nextRaw_of_stream_cons {item : Except LexError Lexeme}
    {rest : List (Except LexError Lexeme)} (hs : s.stream = item :: rest) :
    s.nextRaw = (item.map Lexeme.token, s.goOn rest) := by
  obtain ⟨⟨items, finish⟩, lookahead, pending, widths, last⟩ := s
  cases lookahead with
  | some x =>
    obtain ⟨rfl, rfl⟩ := List.cons.inj hs
    rfl
  | none =>
    obtain rfl : items = item :: rest := hs
    rfl

/-- The end of the text stands last in a stream. -/
theorem nextRaw_of_isEnd (ho : Orderly source s) (h : EndsWith source s)
    (hend : isEnd s.nextRaw.1 = true) :
    s.nextRaw.1 = endOf source ∧ s.nextRaw.2.stream = [] ∧ EndsWith source s.nextRaw.2 := by
  cases hs : s.stream with
  | nil =>
    rw [nextRaw_of_stream_nil hs]
    exact ⟨congrArg Except.ok h.finish, hs, h⟩
  | cons item rest =>
    have hgo : EndsWith source (s.goOn rest) := h.congr rfl rfl
    rw [nextRaw_of_stream_cons hs] at hend ⊢
    cases item with
    | error e => cases hend
    | ok x =>
      have hx : x.kind = .eof := isEnd_ok.1 hend
      -- An item of the text is no end, so this one was read ahead.
      cases hl : s.lookahead with
      | none =>
        rw [stream, hl] at hs
        obtain hs : s.scan.items = .ok x :: rest := hs
        have hmem : .ok x ∈ s.scan.items := hs ▸ List.mem_cons_self
        exact absurd hx (Scan.kind_ne_eof (ho.items.subset hmem))
      | some y =>
        rw [stream, hl] at hs
        obtain ⟨hy, hrest⟩ : Except.ok y = .ok x ∧ s.scan.items = rest := List.cons.inj hs
        obtain rfl := Except.ok.inj hy
        rcases ho.lookahead y hl with ⟨hm, -⟩ | ⟨rfl, hi⟩
        · exact absurd hx (Scan.kind_ne_eof hm)
        · refine ⟨congrArg Except.ok h.finish, ?_, hgo⟩
          exact hrest.symm.trans hi

theorem eq_of_mem_answers_nextRaw (h : EndsWith source s) (hs : s.stream = []) {m : Nat}
    {a : Except LexError Token} (ha : a ∈ s.answers (List.replicate m .nextRaw)) :
    a = endOf source := by
  have hcall : s.call .nextRaw = (endOf source, s) := by
    show s.nextRaw = _
    rw [nextRaw_of_stream_nil hs, h.finish]
    rfl
  induction m with
  | zero => exact absurd ha List.not_mem_nil
  | succ m ih =>
    rw [List.replicate_succ, answers, hcall] at ha
    rcases List.mem_cons.1 ha with ha | ha
    · exact ha
    · exact ih ha

/-! ## Rows of calls -/

/-- No call moves the end of the text. -/
theorem EndsWith.call (ho : Orderly source s) (h : EndsWith source s) (c : Call) :
    EndsWith source (s.call c).2 := by
  cases c with
  | next => exact (next_pays ho h).ends
  | nextRaw =>
    show EndsWith source s.nextRaw.2
    cases hs : s.stream with
    | nil =>
      rw [nextRaw_of_stream_nil hs]
      exact h
    | cons item rest =>
      rw [nextRaw_of_stream_cons hs]
      exact h.congr rfl rfl

theorem EndsWith.after (ho : Orderly source s) (h : EndsWith source s) (calls : List Call) :
    EndsWith source (s.after calls) := by
  induction calls generalizing s with
  | nil => exact h
  | cons c calls ih => exact ih (call_accounts ho c).orderly (h.call ho c)

end Steps

theorem endsWith_ofText (source : String) : EndsWith source (ofText source) := by
  refine ⟨Scan.eof_ofText .dented source, ?_⟩
  intro t ht
  exact absurd ht List.not_mem_nil

end Layout

end OffsideBench

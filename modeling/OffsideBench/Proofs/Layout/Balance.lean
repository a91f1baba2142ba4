import OffsideBench.Proofs.Layout.Widths

/-!
# Blocks stay balanced

However a layout machine is asked, and whatever faults it met, the widths of its open blocks grow
from the first column inwards, only structure waits to be handed out, and the blocks that were
opened but not closed, in what was handed out and in what waits, are the open ones. That is the
invariant `Layout.Balanced`. A fault may leave closings behind that wait, but it leaves them
counted.

Main statement: `Layout.indentation_stays_balanced`.
-/

namespace OffsideBench

open Token (Kind)

namespace Layout

/-! ## What calls leave behind -/

/-- The machine behind a row of calls. -/
def after (s : Layout) : List Call → Layout
  | [] => s
  | c :: calls => (s.call c).2.after calls

/-- The tokens that a row of calls hands out with structure. -/
def handedOut (s : Layout) : List Call → List Token
  | [] => []
  | .next :: calls => s.next.1.toOption.toList ++ s.next.2.handedOut calls
  | .nextRaw :: calls => s.nextRaw.2.handedOut calls

/-- The widths that a line may return to, from the first column inwards. The first column is always
one of them, which is why the machine does not list it: a line closes only what is wider than
itself, and the first column is wider than nothing. -/
def indents (s : Layout) : List UInt32 := 0 :: s.widths.reverse

/-- The number of blocks that tokens open. -/
def opened (ts : List Token) : Nat := (ts.map Token.kind).count .indent

/-- The number of blocks that tokens close. -/
def closed (ts : List Token) : Nat := (ts.map Token.kind).count .dedent

theorem opened_append (ts us : List Token) : opened (ts ++ us) = opened ts + opened us := by
  rw [opened, List.map_append, List.count_append]
  rfl

theorem closed_append (ts us : List Token) : closed (ts ++ us) = closed ts + closed us := by
  rw [closed, List.map_append, List.count_append]
  rfl

theorem opened_cons (t : Token) (ts : List Token) :
    opened (t :: ts) = opened ts + if t.kind = .indent then 1 else 0 := by
  rw [opened, List.map_cons, List.count_cons]
  simp [opened]

theorem closed_cons (t : Token) (ts : List Token) :
    closed (t :: ts) = closed ts + if t.kind = .dedent then 1 else 0 := by
  rw [closed, List.map_cons, List.count_cons]
  simp [closed]

theorem closed_dedents (n offset : Nat) :
    closed (List.replicate n (Token.empty .dedent offset)) = n := by
  rw [closed, List.map_replicate, List.count_replicate]
  rfl

/-! ## What waits -/

/-- Whether a kind of token may wait to be handed out. -/
def Waits (k : Kind) : Prop := k = .newline ∨ k = .dedent ∨ k = .eof

/-- What waits opens no block. -/
theorem opened_of_waits {ts : List Token} (h : ∀ t ∈ ts, Waits t.kind) : opened ts = 0 := by
  refine List.count_eq_zero.2 fun hm => ?_
  obtain ⟨t, ht, hk⟩ := List.mem_map.1 hm
  rcases h t ht with e | e | e <;> rw [e] at hk <;> cases hk

/-- Tokens that end lines and blocks, but not the text. -/
def Closings (ts : List Token) : Prop := ∀ t ∈ ts, t.kind = .newline ∨ t.kind = .dedent

namespace Closings

variable {ts : List Token}

theorem nil : Closings [] := by
  intro t ht
  exact absurd ht List.not_mem_nil

theorem dedents (n offset : Nat) : Closings (List.replicate n (Token.empty .dedent offset)) := by
  intro t ht
  rw [List.eq_of_mem_replicate ht]
  exact .inr rfl

theorem newline {t : Token} (ht : t.kind = .newline) (h : Closings ts) : Closings (t :: ts) :=
  List.forall_mem_cons.2 ⟨.inl ht, h⟩

theorem waits (h : Closings ts) : ∀ t ∈ ts, Waits t.kind := by
  intro t ht
  exact (h t ht).imp_right .inl

theorem kind_ne_eof (h : Closings ts) : ∀ t ∈ ts, t.kind ≠ .eof := by
  intro t ht he
  rcases h t ht with hk | hk <;> rw [hk] at he <;> cases he

end Closings

/-! ## The invariant -/

/-- The invariant of a machine that has handed out the tokens `ts` with structure. -/
structure Balanced (s : Layout) (ts : List Token) : Prop where
  /-- Inner blocks are wider than outer ones. -/
  sorted : (openWidths s.widths).Pairwise (· > ·)
  /-- Only ends of lines, of blocks and of the text wait. -/
  pending : ∀ t ∈ s.pending, Waits t.kind
  /-- The blocks that were opened and not closed, with those that wait to be closed, are open. -/
  count : opened (ts ++ s.pending) = closed (ts ++ s.pending) + s.widths.length
  /-- The end of the text waits behind everything else, when all blocks are closed. -/
  eof : ∀ us t vs, s.pending = us ++ t :: vs → t.kind = .eof → vs = [] ∧ s.widths = []

namespace Balanced

variable {s : Layout} {ts : List Token}

/-- Only what a machine has open and what waits in it counts. -/
theorem congr (h : Balanced s ts) {s' : Layout} (hw : s'.widths = s.widths)
    (hp : s'.pending = s.pending) : Balanced s' ts := by
  refine ⟨?_, ?_, ?_, ?_⟩
  · rw [hw]
    exact h.sorted
  · rw [hp]
    exact h.pending
  · rw [hp, hw]
    exact h.count
  · rw [hp, hw]
    exact h.eof

/-- With nothing that waits the open blocks are those that were opened and not closed. -/
theorem count_of_pending (h : Balanced s ts) (hp : s.pending = []) :
    opened ts = closed ts + s.widths.length := by
  have hc := h.count
  rw [hp, List.append_nil] at hc
  exact hc

/-- Never were more blocks closed than opened. -/
theorem closed_le_opened (h : Balanced s ts) : closed ts ≤ opened ts := by
  have hc := h.count
  rw [opened_append, closed_append, opened_of_waits h.pending] at hc
  omega

/-- With nothing that waits only the open blocks count. -/
theorem of_pending_nil (hp : s.pending = []) (hs : (openWidths s.widths).Pairwise (· > ·))
    (hc : opened ts = closed ts + s.widths.length) : Balanced s ts := by
  refine ⟨hs, ?_, ?_, ?_⟩
  · intro t ht
    rw [hp] at ht
    exact absurd ht List.not_mem_nil
  · rw [hp, List.append_nil]
    exact hc
  · intro us t vs h
    rw [hp] at h
    exact absurd h.symm (List.append_ne_nil_of_right_ne_nil _ (List.cons_ne_nil _ _))

/-- A fresh machine is balanced. -/
theorem ofText (source : String) : Balanced (ofText source) [] :=
  of_pending_nil rfl (List.pairwise_singleton _ _) rfl

end Balanced

/-! ## One call -/

/-- What a call gives when the tokens `ts` were handed out before: it leaves a balanced machine
behind, and one that is at rest when it answers the end of the text. -/
structure Leaves (ts : List Token) (r : Except LexError Token × Layout) : Prop where
  balanced : Balanced r.2 (ts ++ r.1.toOption.toList)
  rests : ∀ t, r.1 = .ok t → t.kind = .eof → r.2.pending = [] ∧ r.2.widths = []

section Steps

variable {source : String} {s : Layout} {ts : List Token}

/-- A fault hands out nothing. -/
theorem Leaves.of_error (h : Balanced s ts) (e : LexError) : Leaves ts (.error e, s) := by
  refine ⟨?_, ?_⟩
  · show Balanced s (ts ++ [])
    rw [List.append_nil]
    exact h
  · intro t ht
    cases ht

/-- A token that waited is handed out. -/
theorem Balanced.handOut (h : Balanced s ts) {t : Token} {us : List Token}
    (hp : s.pending = t :: us) : Leaves ts (s.handOut t us) := by
  have hassoc : ts ++ [t] ++ us = ts ++ s.pending := by
    rw [hp, List.append_assoc, List.singleton_append]
  refine ⟨⟨h.sorted, ?_, ?_, ?_⟩, ?_⟩
  · intro u hu
    exact h.pending u (hp ▸ List.mem_cons_of_mem _ hu)
  · show opened (ts ++ [t] ++ us) = closed (ts ++ [t] ++ us) + s.widths.length
    rw [hassoc]
    exact h.count
  · intro vs u ws hus hu
    refine h.eof (t :: vs) u ws ?_ hu
    rw [hp, show us = vs ++ u :: ws from hus]
    rfl
  · rintro u ⟨⟩ hu
    exact h.eof [] t us hp hu

/-- At the end of the text the closings of all blocks wait, and behind them the end. -/
theorem Balanced.waitForEnd (h : Balanced s ts) (hp : s.pending = []) {e : Token}
    (he : e.kind = .eof) {us : List Token} (hus : Closings us)
    (hc : closed us = s.widths.length) :
    Balanced { s with widths := [], pending := us ++ [e] } ts := by
  have hwaits : ∀ u ∈ us ++ [e], Waits u.kind := by
    intro u hu
    rcases List.mem_append.1 hu with hu | hu
    · exact hus.waits u hu
    · rw [List.mem_singleton.1 hu]
      exact .inr (.inr he)
  refine ⟨List.pairwise_singleton _ _, hwaits, ?_, ?_⟩
  · have hcount := h.count_of_pending hp
    show opened (ts ++ (us ++ [e])) = closed (ts ++ (us ++ [e])) + 0
    rw [opened_append, opened_of_waits hwaits, closed_append, closed_append, closed_cons, he, hc]
    simp only [reduceCtorEq, if_false]
    exact hcount
  · intro as t bs hsplit ht
    refine ⟨?_, rfl⟩
    -- Nothing in front of the end of the text is an end of the text.
    rcases List.append_eq_append_iff.1 (show us ++ [e] = as ++ t :: bs from hsplit) with
      ⟨cs, rfl, hcs⟩ | ⟨cs, rfl, hcs⟩
    · cases cs with
      | nil => exact (List.cons.inj hcs).2.symm
      | cons c cs => simp at hcs
    · cases cs with
      | nil => exact (List.cons.inj hcs).2
      | cons c cs =>
        obtain rfl := (List.cons.inj hcs).1
        exact absurd ht (hus.kind_ne_eof t (by simp))

theorem Balanced.close (h : Balanced s ts) (hp : s.pending = []) {x : Lexeme}
    (hx : x.kind = .eof) : Leaves ts (s.close x) := by
  have he : x.token.kind = .eof := hx
  unfold Layout.close
  split
  · split
    · rename_i hw
      have hb := h.waitForEnd hp he .nil (by rw [hw]; rfl)
      exact hb.handOut rfl
    · rename_i w ws hw
      have hb := h.waitForEnd hp he (.dedents (ws.length + 1) x.start.offset)
        (by rw [closed_dedents, hw]; rfl)
      exact hb.handOut rfl
  · have hends := (Closings.dedents s.widths.length x.start.offset).newline
      (t := Token.empty .newline x.start.offset) rfl
    have hb := h.waitForEnd hp he hends (by rw [closed_cons, closed_dedents]; rfl)
    exact hb.handOut rfl

/-- A lexeme that is no line break opens and closes nothing. -/
theorem Balanced.place (h : Balanced s ts) (hp : s.pending = []) {x : Lexeme}
    (hx : x.kind.isContent = true ∨ x.kind = .eof) : Leaves ts (s.place x) := by
  unfold Layout.place
  split
  · rename_i he
    exact h.close hp he
  rename_i he
  split
  · exact .of_error h _
  · have hk := hx.resolve_right he
    have hi : x.token.kind ≠ .indent := Kind.ne_of_isContent hk rfl
    have hd : x.token.kind ≠ .dedent := Kind.ne_of_isContent hk rfl
    refine ⟨.of_pending_nil rfl h.sorted ?_, ?_⟩
    · show opened (ts ++ [x.token]) = closed (ts ++ [x.token]) + s.widths.length
      rw [opened_append, closed_append, opened_cons, closed_cons, if_neg hi, if_neg hd]
      exact h.count_of_pending hp
    · rintro t ⟨⟩ ht
      exact absurd ht he

/-- Closing blocks makes as many closings wait as blocks are closed, also when the line that closes
them has no place in what is left. -/
theorem Balanced.closing (h : Balanced s ts) (hp : s.pending = []) {newline : Token}
    (hn : newline.kind = .newline) (width : UInt32) (offset : Nat) :
    Balanced { s with
      widths := closeTo width s.widths
      pending := newline :: List.replicate (s.widths.length - (closeTo width s.widths).length)
        (Token.empty .dedent offset) } ts := by
  have hle := closeTo_length_le width s.widths
  have hcount := h.count_of_pending hp
  have hends :=
    (Closings.dedents (s.widths.length - (closeTo width s.widths).length) offset).newline hn
  refine ⟨sorted_closeTo h.sorted, hends.waits, ?_, ?_⟩
  · show opened (ts ++ newline :: _) = closed (ts ++ newline :: _) + (closeTo width s.widths).length
    rw [opened_append, closed_append, closed_cons, opened_of_waits hends.waits, closed_dedents, hn]
    simp only [reduceCtorEq, if_false]
    omega
  · intro us t vs hus ht
    refine absurd ht (hends.kind_ne_eof t ?_)
    rw [show newline :: _ = us ++ t :: vs from hus]
    exact List.mem_append_right us List.mem_cons_self

/-- A line opens one block or closes some. -/
theorem Balanced.startLine (h : Balanced s ts) (hp : s.pending = []) {newline : Lexeme}
    (hn : newline.kind = .newline) : Leaves ts (s.startLine newline) := by
  have hk : newline.token.kind = .newline := hn
  have hclose := h.closing hp hk newline.stop.width newline.stop.offset
  unfold Layout.startLine
  simp only
  split
  · rename_i hlt
    have hcount := h.count_of_pending hp
    refine ⟨.of_pending_nil rfl (List.pairwise_cons.2 ⟨?_, h.sorted⟩) ?_, ?_⟩
    · intro m hm
      exact (le_headD h.sorted hm).trans_lt (UInt32.lt_iff_toNat_lt.1 hlt)
    · show opened (ts ++ [⟨.indent, _, _⟩]) = closed (ts ++ [⟨.indent, _, _⟩]) +
        (s.widths.length + 1)
      rw [opened_append, closed_append]
      show opened ts + 1 = closed ts + 0 + (s.widths.length + 1)
      omega
    · rintro t ⟨⟩ ht
      cases ht
  · split
    · exact hclose.handOut rfl
    · exact .of_error hclose _

theorem Balanced.meet (h : Balanced s ts) (hp : s.pending = []) {newline? : Option Lexeme}
    (hn : ∀ n, newline? = some n → n.kind = .newline) {item : Except LexError Lexeme}
    (hi : ∀ x, item = .ok x → x.kind.isContent = true ∨ x.kind = .eof) :
    Leaves ts (s.meet newline? item) := by
  cases item with
  | error e => exact .of_error h e
  | ok x =>
    have hplace := h.place hp (hi x rfl)
    cases newline? with
    | none => exact hplace
    | some n =>
      rw [Layout.meet, resume]
      split
      · exact hplace
      · have hahead : Balanced { s with lookahead := some x } ts := h.congr rfl rfl
        exact hahead.startLine hp (hn n rfl)

/-- A call for the next token with structure keeps the machine balanced. -/
theorem Balanced.next (ho : Orderly source s) (h : Balanced s ts) : Leaves ts s.next := by
  cases hp : s.pending with
  | cons t us =>
    have hnext : s.next = s.handOut t us := by rw [Layout.next, hp]
    rw [hnext]
    exact h.handOut hp
  | nil =>
    obtain ⟨newlines, item, rest, hlead⟩ := Leads.exists_leads s.scan.finish s.stream
    obtain ⟨-, hi⟩ := ho.goOn hp hlead
    rw [next_of_leads hp ho.kind_lookahead hlead]
    have hgo : Balanced (s.goOn rest) ts := h.congr rfl rfl
    refine hgo.meet hp ?_ ?_
    · intro n hn
      exact hlead.kind_newlines n (List.mem_of_getLast? hn)
    · rintro x rfl
      rcases hi with ⟨hm, hne⟩ | ⟨he, -⟩
      · exact .inl ((Scan.kind_of_mem_items hm).resolve_right (hne x rfl))
      · cases he
        exact .inr rfl

/-- A call for the next token without structure opens and closes nothing. -/
theorem Balanced.nextRaw (h : Balanced s ts) : Balanced s.nextRaw.2 ts := by
  refine h.congr ?_ ?_
  · unfold Layout.nextRaw read
    split <;> rfl
  · unfold Layout.nextRaw read
    split <;> rfl

/-- Calls keep a machine in order and balanced. -/
theorem Balanced.after (ho : Orderly source s) (h : Balanced s ts) (calls : List Call) :
    Orderly source (s.after calls) ∧ Balanced (s.after calls) (ts ++ s.handedOut calls) := by
  induction calls generalizing s ts with
  | nil =>
    rw [handedOut, List.append_nil]
    exact ⟨ho, h⟩
  | cons c calls ih =>
    have ho' := (call_accounts ho c).orderly
    cases c with
    | next =>
      have hrest := ih ho' (h.next ho).balanced
      rw [List.append_assoc] at hrest
      exact hrest
    | nextRaw => exact ih ho' h.nextRaw

end Steps

/-! ## Every moment of every run -/

theorem map_toNat_indents (s : Layout) :
    s.indents.map UInt32.toNat = (openWidths s.widths).reverse := by
  rw [indents, openWidths, List.reverse_append, List.map_cons, List.map_reverse]
  rfl

/-- Outer blocks are narrower than inner ones. -/
theorem Balanced.pairwise_indents {s : Layout} {ts : List Token} (h : Balanced s ts) :
    s.indents.Pairwise (· < ·) := by
  have hs : (s.indents.map UInt32.toNat).Pairwise (· < ·) := by
    rw [map_toNat_indents, List.pairwise_reverse]
    exact h.sorted
  refine (List.pairwise_map.1 hs).imp ?_
  intro v w hlt
  exact UInt32.lt_iff_toNat_lt.2 hlt

/-- **Blocks stay balanced.** Whatever calls were made on a machine, faults and ends of the text
included: the widths that a line may return to begin with the first column and increase, no line
break was read ahead, only structure waits, and one for each open block an `indent` is left over, in
what was handed out with structure and in what waits. So never were more blocks closed than opened;
and when the end of the text is handed out, equally many were, only the first column is left, and
nothing waits. -/
theorem indentation_stays_balanced (source : String) (calls : List Call) :
    let s := (ofText source).after calls
    let ts := (ofText source).handedOut calls
    (s.indents.head? = some 0 ∧ s.indents.Pairwise (· < ·)) ∧
    (∀ x, s.lookahead = some x → x.kind ≠ .newline) ∧
    (∀ t ∈ s.pending, t.kind ∈ [.newline, .indent, .dedent, .eof]) ∧
    opened (ts ++ s.pending) = closed (ts ++ s.pending) + (s.indents.length - 1) ∧
    closed ts ≤ opened ts ∧
    ∀ t, s.next.1 = .ok t → t.kind = .eof →
      opened (ts ++ [t]) = closed (ts ++ [t]) ∧ s.next.2.indents = [0] ∧
        s.next.2.pending = [] := by
  intro s ts
  obtain ⟨ho, hb⟩ := Balanced.after (orderly_ofText source) (.ofText source) calls
  change Balanced s ts at hb
  have hlen : s.indents.length - 1 = s.widths.length := by
    rw [indents, List.length_cons, List.length_reverse, Nat.add_sub_cancel]
  refine ⟨⟨rfl, hb.pairwise_indents⟩, ho.kind_lookahead, ?_, ?_, hb.closed_le_opened, ?_⟩
  · intro t ht
    rcases hb.pending t ht with e | e | e <;> rw [e] <;> decide
  · rw [hlen]
    exact hb.count
  · intro t ht hk
    have hnext := hb.next ho
    obtain ⟨hp, hw⟩ := hnext.rests t ht hk
    have hcount := hnext.balanced.count_of_pending hp
    rw [ht, hw] at hcount
    refine ⟨hcount, ?_, hp⟩
    rw [indents, hw]
    rfl

/-- The statement of `Layout.indentation_stays_balanced` for mixed calls that meet a width which no
block has and a character that starts no token, and for their end. -/
theorem indentation_stays_balanced_mixed :
    let s := (ofText "a\n  b\n c $d").after
      [.next, .next, .next, .next, .nextRaw, .next, .next, .next, .next, .next]
    let ts := (ofText "a\n  b\n c $d").handedOut
      [.next, .next, .next, .next, .nextRaw, .next, .next, .next, .next, .next]
    s.next.1 = .ok ⟨.eof, 11, 11⟩ ∧ opened (ts ++ [⟨.eof, 11, 11⟩]) = 1 ∧
      opened (ts ++ [⟨.eof, 11, 11⟩]) = closed (ts ++ [⟨.eof, 11, 11⟩]) ∧
      s.next.2.indents = [0] := by
  intro s ts
  have heof : s.next.1 = .ok ⟨.eof, 11, 11⟩ := by decide +kernel
  have hopened : opened (ts ++ [⟨.eof, 11, 11⟩]) = 1 := by decide +kernel
  have h := (indentation_stays_balanced "a\n  b\n c $d"
    [.next, .next, .next, .next, .nextRaw, .next, .next, .next, .next, .next]).2.2.2.2.2 _ heof rfl
  exact ⟨heof, hopened, h.1, h.2.1⟩

end Layout

end OffsideBench

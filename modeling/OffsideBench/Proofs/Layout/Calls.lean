import Mathlib.Data.List.Forall2
import OffsideBench.Proofs.Draining
import OffsideBench.Proofs.Layout.Step

/-!
# Mixed calls

A layout machine may be asked for the next token with structure and for the next token without it,
in any order, and it goes on after faults and behind the end of the text. No token of the text is
lost, doubled or moved by that: `Layout.owed` is what a machine still has to hand out of the text,
and each call takes from its front exactly what the answer stands for (`Layout.call_accounts`). A
run of calls therefore hands out a first part of what the fresh machine owed
(`Layout.answers_account`).
-/

namespace OffsideBench

open Token (Kind)

namespace Layout

/-- The two ways to ask a machine for a token. -/
inductive Call where
  /-- The stream with structure. -/
  | next
  /-- The stream without structure. -/
  | nextRaw
deriving DecidableEq, Repr, Inhabited

/-- What a machine answers to a call, and the machine behind it. -/
def call (s : Layout) : Call → Except LexError Token × Layout
  | .next => s.next
  | .nextRaw => s.nextRaw

/-- What a machine answers to a row of calls. -/
def answers (s : Layout) : List Call → List (Except LexError Token)
  | [] => []
  | c :: calls => (s.call c).1 :: (s.call c).2.answers calls

/-- Whether an answer stands for text of the program: a content token, or a fault in its place. A
line that returns to an unknown width is a fault between tokens. -/
def carriesText : Except LexError Token → Bool
  | .ok t => t.kind.isContent
  | .error (.inconsistentDedent ..) => false
  | .error _ => true

/-- Whether an answer is neither a line break nor the end of the text. -/
def isSolid : Except LexError Token → Bool
  | .ok t => t.kind != .newline && t.kind != .eof
  | .error _ => true

/-- What an answer stands for in the stream without structure: itself, or the content token that it
rejects. -/
inductive StandsFor (source : String) : Except LexError Token → Except LexError Token → Prop where
  /-- An answer stands for itself. -/
  | same (r : Except LexError Token) : StandsFor source r r
  /-- A token that is indented although nothing stands in front of it is rejected, with the start of
  its line and the width up to it. -/
  | rejected {x : Lexeme} (hx : .ok x ∈ (Scan.ofText .dented source).items)
      (hk : x.kind.isContent = true) :
      StandsFor source (.error (.unexpectedIndent x.start.lineStart x.start.width)) (.ok x.token)

/-- What a machine still has to hand out of the text. -/
def owed (s : Layout) : List (Except LexError Token) :=
  (s.stream.map (Except.map Lexeme.token)).filter carriesText

/-- The invariant of a machine that reads `source`, under all calls. -/
structure Orderly (source : String) (s : Layout) : Prop where
  /-- What is left to read is a last part of the stream of the text. -/
  items : s.scan.items <:+ (Scan.ofText .dented source).items
  /-- What was read ahead is content, or the end of the text. -/
  lookahead : ∀ x, s.lookahead = some x →
    .ok x ∈ (Scan.ofText .dented source).items ∧ x.kind.isContent = true ∨
      x = .eof s.scan.finish ∧ s.scan.items = []
  /-- Only structure waits to be handed out. -/
  pending : ∀ t ∈ s.pending, t.kind.isContent = false
  /-- The end of the text waits only when there is nothing left to read. -/
  closed : (∃ t ∈ s.pending, t.kind = .eof) → s.stream = []

/-- The answer to a call accounts for the front of what was `owed` before it, and leaves the rest
to the machine behind it. -/
structure Accounts (source : String) (owed : List (Except LexError Token))
    (answer : Except LexError Token) (s' : Layout) : Prop where
  /-- The invariant is kept. -/
  orderly : Orderly source s'
  /-- What the answer stands for is taken from the front. -/
  taken : ∃ given, List.Forall₂ (StandsFor source) ([answer].filter carriesText) given ∧
    owed = given ++ s'.owed
  /-- The end of the text is answered only when nothing is owed. -/
  finished : ∀ t, answer = .ok t → t.kind = .eof → s'.owed = []

section Steps

variable {source : String} {s : Layout}

/-- An answer that is no text takes nothing. -/
theorem Accounts.of_structure {owed : List (Except LexError Token)}
    {answer : Except LexError Token} {s' : Layout} (ho : Orderly source s')
    (ha : carriesText answer = false) (hs : owed = s'.owed)
    (hf : ∀ t, answer = .ok t → t.kind = .eof → s'.owed = []) : Accounts source owed answer s' := by
  refine ⟨ho, ⟨[], ?_, hs⟩, hf⟩
  rw [List.filter_cons_of_neg (ne_true_of_eq_false ha)]
  exact .nil

/-- An answer that is text takes what it stands for. -/
theorem Accounts.of_text {owed : List (Except LexError Token)}
    {answer given : Except LexError Token} {s' : Layout} (ho : Orderly source s')
    (ha : carriesText answer = true) (hg : StandsFor source answer given)
    (hs : owed = given :: s'.owed) : Accounts source owed answer s' := by
  refine ⟨ho, ⟨[given], ?_, hs⟩, ?_⟩
  · rw [List.filter_cons_of_pos ha]
    exact .cons hg .nil
  · rintro t rfl ht
    rw [carriesText, ht] at ha
    cases ha

theorem owed_eq (s : Layout) :
    s.owed = ((s.lookahead.toList.map (.ok ∘ Lexeme.token)).filter carriesText) ++
      (s.scan.items.map (Except.map Lexeme.token)).filter carriesText := by
  rw [owed, stream, List.map_append, List.map_map, List.filter_append]
  rfl

/-- Closing all blocks at the end of the text hands out structure only. -/
theorem close_accounts (ho : Orderly source s) (hl : s.lookahead = none) (hi : s.scan.items = [])
    {x : Lexeme} (hx : x.kind = .eof) :
    Accounts source s.owed (s.close x).1 (s.close x).2 := by
  have hs : s.stream = [] := by rw [stream, hl, hi]; rfl
  have howed : s.owed = [] := by rw [owed, hs]; rfl
  -- Whatever is handed out first, what waits behind it is closings and the end of the text.
  have key : ∀ (t : Token) (ts : List Token), t.kind.isContent = false →
      (∀ u ∈ ts, u.kind.isContent = false) →
      Accounts source s.owed ({ s with widths := [] }.handOut t ts).1
        ({ s with widths := [] }.handOut t ts).2 := by
    intro t ts ht hts
    refine .of_structure ⟨ho.items, ?_, hts, fun _ => hs⟩ ht rfl fun _ _ _ => howed
    intro y hy
    exact absurd (hl.symm.trans hy) (by simp)
  have heof : x.token.kind.isContent = false := by
    show x.kind.isContent = false
    rw [hx]
    rfl
  have hwait : ∀ n, ∀ u ∈ List.replicate n (Token.empty .dedent x.start.offset) ++ [x.token],
      u.kind.isContent = false := by
    intro n u hu
    rcases List.mem_append.1 hu with hu | hu
    · rw [List.eq_of_mem_replicate hu]
      rfl
    · rw [List.mem_singleton.1 hu]
      exact heof
  unfold close
  split
  · split
    · exact key _ _ heof (by simp)
    · exact key _ _ rfl (hwait _)
  · exact key _ _ rfl (hwait _)

/-- A lexeme that is no line break is handed out, rejected, or the end of the text. -/
theorem place_accounts (ho : Orderly source s) (hl : s.lookahead = none)
    {x : Lexeme} (hx : .ok x ∈ (Scan.ofText .dented source).items ∧ x.kind.isContent = true ∨
      x = .eof s.scan.finish ∧ s.scan.items = []) :
    Accounts source ([.ok x.token].filter carriesText ++ s.owed) (s.place x).1 (s.place x).2 := by
  rcases hx with ⟨hx, hk⟩ | ⟨rfl, hi⟩
  · have hne : x.kind ≠ .eof := Kind.ne_of_isContent hk rfl
    have hc : carriesText (.ok x.token) = true := hk
    rw [List.filter_cons_of_pos hc]
    unfold place
    rw [if_neg hne]
    split
    · exact .of_text ho rfl (.rejected hx hk) rfl
    · refine .of_text ⟨ho.items, ho.lookahead, ?_, ?_⟩ hc (.same _) rfl
      · intro t ht
        exact absurd ht List.not_mem_nil
      · rintro ⟨t, ht, -⟩
        exact absurd ht List.not_mem_nil
  · have hc : carriesText (.ok (Lexeme.eof s.scan.finish).token) = false := rfl
    have hplace : s.place (.eof s.scan.finish) = s.close (.eof s.scan.finish) := if_pos rfl
    rw [List.filter_cons_of_neg (ne_true_of_eq_false hc), hplace]
    exact close_accounts ho hl hi rfl

/-- Starting a line hands out structure only, and keeps the lexeme behind the line break. -/
theorem startLine_accounts (ho : Orderly source s) {newline : Lexeme}
    (hn : newline.kind = .newline) :
    Accounts source s.owed (s.startLine newline).1 (s.startLine newline).2 := by
  have hdedents : ∀ n, ∀ t ∈ List.replicate n (Token.empty .dedent newline.stop.offset),
      t.kind = .dedent := by
    intro n t ht
    rw [List.eq_of_mem_replicate ht]
    rfl
  have hnk : newline.token.kind = .newline := hn
  unfold startLine
  simp only
  split
  · refine .of_structure ⟨ho.items, ho.lookahead, ?_, ?_⟩ rfl rfl ?_
    · intro t ht
      exact absurd ht List.not_mem_nil
    · rintro ⟨t, ht, -⟩
      exact absurd ht List.not_mem_nil
    · intro t ht he
      cases ht
      cases he
  · split
    · refine .of_structure ⟨ho.items, ho.lookahead, ?_, ?_⟩ ?_ rfl ?_
      · intro t ht
        rw [hdedents _ t ht]
        rfl
      · rintro ⟨t, ht, he⟩
        rw [hdedents _ t ht] at he
        cases he
      · show newline.token.kind.isContent = false
        rw [hnk]
        rfl
      · intro t ht he
        cases ht
        rw [hnk] at he
        cases he
    · refine .of_structure ⟨ho.items, ho.lookahead, ?_, ?_⟩ rfl rfl ?_
      · intro t ht
        rcases List.mem_cons.1 ht with rfl | ht
        · rw [hnk]
          rfl
        · rw [hdedents _ t ht]
          rfl
      · rintro ⟨t, ht, he⟩
        rcases List.mem_cons.1 ht with rfl | ht
        · rw [hnk] at he
          cases he
        · rw [hdedents _ t ht] at he
          cases he
      · intro t ht
        cases ht

/-- Meeting an item accounts for it, in front of what is owed behind it. -/
theorem meet_accounts (ho : Orderly source s) (hp : s.pending = []) (hl : s.lookahead = none)
    {newline? : Option Lexeme} (hn : ∀ n, newline? = some n → n.kind = .newline)
    {item : Except LexError Lexeme}
    (hi : item ∈ (Scan.ofText .dented source).items ∧ (∀ x, item = .ok x → x.kind ≠ .newline) ∨
      item = .ok (.eof s.scan.finish) ∧ s.scan.items = []) :
    Accounts source ([item.map Lexeme.token].filter carriesText ++ s.owed)
      (s.meet newline? item).1 (s.meet newline? item).2 := by
  cases item with
  | error e =>
    rcases hi with ⟨hi, -⟩ | ⟨hi, -⟩
    · obtain ⟨offset, rfl⟩ := Scan.error_of_mem_items hi
      exact .of_text ho rfl (.same _) rfl
    · cases hi
  | ok x =>
    have hx : .ok x ∈ (Scan.ofText .dented source).items ∧ x.kind.isContent = true ∨
        x = .eof s.scan.finish ∧ s.scan.items = [] := by
      rcases hi with ⟨hi, hne⟩ | ⟨hi, he⟩
      · exact .inl ⟨hi, (Scan.kind_of_mem_items hi).resolve_right (hne x rfl)⟩
      · cases hi
        exact .inr ⟨rfl, he⟩
    have hplace := place_accounts ho hl hx
    cases newline? with
    | none => exact hplace
    | some n =>
      show Accounts source _ (if _ then _ else _ : _ × _).1 (if _ then _ else _ : _ × _).2
      split
      · exact hplace
      · rename_i hne
        have hahead : Orderly source { s with lookahead := some x } := by
          refine ⟨ho.items, ?_, ho.pending, ?_⟩
          · rintro y ⟨⟩
            exact hx
          · rintro ⟨t, ht, -⟩
            rw [hp] at ht
            exact absurd ht List.not_mem_nil
        have howed : { s with lookahead := some x }.owed =
            [.ok x.token].filter carriesText ++ s.owed := by
          rw [owed_eq, owed_eq s, hl]
          rfl
        rw [show (Except.ok x).map Lexeme.token = .ok x.token from rfl, ← howed]
        exact startLine_accounts hahead (hn n rfl)

/-- Behind the line breaks in front of it a machine owes what it owed before them. -/
theorem owed_of_leads {newlines : List Lexeme} {item : Except LexError Lexeme}
    {rest : List (Except LexError Lexeme)} (h : Leads s.scan.finish s.stream newlines item rest) :
    s.owed = [item.map Lexeme.token].filter carriesText ++ (s.goOn rest).owed := by
  have hnl : ((newlines.map .ok).map (Except.map Lexeme.token)).filter carriesText = [] := by
    rw [List.filter_eq_nil_iff]
    intro r hr
    simp only [List.map_map, List.mem_map, Function.comp_apply] at hr
    obtain ⟨n, hn, rfl⟩ := hr
    show ¬ n.kind.isContent = true
    rw [h.kind_newlines n hn]
    exact Bool.false_ne_true
  have hgo : (s.goOn rest).owed = (rest.map (Except.map Lexeme.token)).filter carriesText := rfl
  rw [hgo, owed]
  rcases h.eq_append with hs | ⟨hs, rfl, rfl⟩
  · rw [hs, List.map_append, List.filter_append, hnl, List.nil_append, List.map_cons,
      ← List.singleton_append, List.filter_append]
  · rw [hs, hnl]
    rfl

theorem Orderly.kind_lookahead (ho : Orderly source s) :
    ∀ x, s.lookahead = some x → x.kind ≠ .newline := by
  intro x hx
  rcases ho.lookahead x hx with ⟨-, hk⟩ | ⟨rfl, -⟩
  · exact Kind.ne_of_isContent hk rfl
  · rintro ⟨⟩

/-- Behind the line breaks in front of it a machine is still in order, and what it meets there is an
item of the text or its end. -/
theorem Orderly.goOn (ho : Orderly source s) (hp : s.pending = []) {newlines : List Lexeme}
    {item : Except LexError Lexeme} {rest : List (Except LexError Lexeme)}
    (h : Leads s.scan.finish s.stream newlines item rest) :
    Orderly source (s.goOn rest) ∧
      (item ∈ (Scan.ofText .dented source).items ∧ (∀ x, item = .ok x → x.kind ≠ .newline) ∨
        item = .ok (.eof s.scan.finish) ∧ rest = []) := by
  have hgo : rest <:+ (Scan.ofText .dented source).items → Orderly source (s.goOn rest) := by
    intro hrest
    refine ⟨hrest, ?_, ho.pending, ?_⟩
    · rintro x ⟨⟩
    · rintro ⟨t, ht, -⟩
      rw [show (s.goOn rest).pending = s.pending from rfl, hp] at ht
      exact absurd ht List.not_mem_nil
  cases hl : s.lookahead with
  | some x =>
    -- What was read ahead is no line break, so it is met at once.
    have hx := ho.kind_lookahead x hl
    rw [stream, hl] at h
    cases h with
    | newline hn => exact absurd hn hx
    | lexeme =>
      refine ⟨hgo ho.items, ?_⟩
      rcases ho.lookahead x hl with ⟨hm, -⟩ | ⟨he, hi⟩
      · refine .inl ⟨hm, ?_⟩
        rintro y ⟨⟩
        exact hx
      · exact .inr ⟨by rw [he], hi⟩
  | none =>
    rw [stream, hl] at h
    change Leads s.scan.finish s.scan.items newlines item rest at h
    have hkind := h.kind_item
    rcases h.eq_append with hs | ⟨-, hitem, rfl⟩
    · have hrest : item :: rest <:+ (Scan.ofText .dented source).items :=
        .trans ⟨_, hs.symm⟩ ho.items
      refine ⟨hgo (.trans (List.suffix_cons ..) hrest), .inl ⟨?_, hkind⟩⟩
      exact hrest.subset List.mem_cons_self
    · exact ⟨hgo List.nil_suffix, .inr ⟨hitem, rfl⟩⟩

/-- A call for the next token with structure accounts for what it takes. -/
theorem next_accounts (ho : Orderly source s) : Accounts source s.owed s.next.1 s.next.2 := by
  cases hp : s.pending with
  | cons t ts =>
    have hnext : s.next = s.handOut t ts := by rw [next, hp]
    have ht : t.kind.isContent = false := ho.pending t (hp ▸ List.mem_cons_self)
    rw [hnext]
    refine .of_structure ⟨ho.items, ho.lookahead, ?_, ?_⟩ ht rfl ?_
    · intro u hu
      exact ho.pending u (hp ▸ List.mem_cons_of_mem _ hu)
    · rintro ⟨u, hu, he⟩
      exact ho.closed ⟨u, hp ▸ List.mem_cons_of_mem _ hu, he⟩
    · rintro u ⟨⟩ he
      have hs := ho.closed ⟨t, hp ▸ List.mem_cons_self, he⟩
      show s.owed = []
      rw [owed, hs]
      rfl
  | nil =>
    obtain ⟨newlines, item, rest, h⟩ := Leads.exists_leads s.scan.finish s.stream
    obtain ⟨hgo, hi⟩ := ho.goOn hp h
    rw [next_of_leads hp ho.kind_lookahead h, owed_of_leads h]
    refine meet_accounts hgo hp rfl ?_ hi
    intro n hn
    exact h.kind_newlines n (List.mem_of_getLast? hn)

/-- A call for the next token without structure accounts for what it takes. -/
theorem nextRaw_accounts (ho : Orderly source s) :
    Accounts source s.owed s.nextRaw.1 s.nextRaw.2 := by
  obtain ⟨⟨items, finish⟩, lookahead, pending, widths, last⟩ := s
  cases lookahead with
  | some x =>
    -- Without the lexeme that was read ahead the stream is what is left of the text.
    have hafter : Orderly source ⟨⟨items, finish⟩, none, pending, widths, last⟩ := by
      refine ⟨ho.items, ?_, ho.pending, ?_⟩
      · rintro y ⟨⟩
      · intro h
        exact absurd (ho.closed h) (List.cons_ne_nil _ _)
    rcases ho.lookahead x rfl with ⟨-, hk⟩ | ⟨(rfl : x = .eof finish), hi⟩
    · have hc : carriesText (.ok x.token) = true := hk
      refine .of_text hafter hc (.same _) ?_
      rw [owed_eq]
      show [Except.ok x.token].filter carriesText ++ _ = _
      rw [List.filter_cons_of_pos hc]
      rfl
    · refine .of_structure hafter rfl rfl fun _ _ _ => ?_
      obtain rfl : items = [] := hi
      rfl
  | none =>
    cases items with
    | nil => exact .of_structure ho rfl rfl fun _ _ _ => rfl
    | cons item items =>
      have hmem : item ∈ (Scan.ofText .dented source).items := ho.items.subset List.mem_cons_self
      have hafter : Orderly source ⟨⟨items, finish⟩, none, pending, widths, last⟩ := by
        refine ⟨.trans (List.suffix_cons ..) ho.items, ?_, ho.pending, ?_⟩
        · rintro y ⟨⟩
        · intro h
          exact absurd (ho.closed h) (List.cons_ne_nil _ _)
      cases item with
      | error e =>
        obtain ⟨offset, rfl⟩ := Scan.error_of_mem_items hmem
        exact .of_text hafter rfl (.same _) rfl
      | ok x =>
        rcases Scan.kind_of_mem_items hmem with hk | hk
        · have hc : carriesText (.ok x.token) = true := hk
          exact .of_text hafter hc (.same _) (List.filter_cons_of_pos hc)
        · have hc : carriesText (.ok x.token) = false := by
            show x.kind.isContent = false
            rw [hk]
            rfl
          refine .of_structure hafter hc (List.filter_cons_of_neg (ne_true_of_eq_false hc)) ?_
          rintro t ⟨⟩ he
          exact absurd he (Scan.kind_ne_eof hmem)

/-- Every call accounts for what it takes. -/
theorem call_accounts (ho : Orderly source s) (c : Call) :
    Accounts source s.owed (s.call c).1 (s.call c).2 := by
  cases c with
  | next => exact next_accounts ho
  | nextRaw => exact nextRaw_accounts ho

/-- The answers to a row of calls stand for a first part of what was owed, and for all of it once
the end of the text is among them. -/
theorem answers_account (ho : Orderly source s) (calls : List Call) :
    ∃ given, List.Forall₂ (StandsFor source) ((s.answers calls).filter carriesText) given ∧
      given <+: s.owed ∧
      ((∃ t, .ok t ∈ s.answers calls ∧ t.kind = .eof) → given = s.owed) := by
  induction calls generalizing s with
  | nil =>
    refine ⟨[], .nil, List.nil_prefix, ?_⟩
    rintro ⟨t, ht, -⟩
    exact absurd ht List.not_mem_nil
  | cons c calls ih =>
    obtain ⟨ho', ⟨first, hfirst, hs⟩, hfinished⟩ := call_accounts ho c
    obtain ⟨later, hlater, hprefix, hwhole⟩ := ih ho'
    refine ⟨first ++ later, ?_, ?_, ?_⟩
    · rw [answers, ← List.singleton_append, List.filter_append]
      exact List.rel_append hfirst hlater
    · rw [hs]
      exact (List.prefix_append_right_inj first).2 hprefix
    · rintro ⟨t, ht, he⟩
      rw [hs]
      rcases List.mem_cons.1 ht with ht | ht
      · have hnone := hfinished t ht.symm he
        rw [hnone] at hprefix ⊢
        rw [List.prefix_nil.1 hprefix]
      · rw [hwhole ⟨t, ht, he⟩]

end Steps

/-! ## The fresh machine -/

/-- A fresh machine is in order. -/
theorem orderly_ofText (source : String) : Orderly source (ofText source) := by
  refine ⟨List.suffix_refl _, ?_, ?_, ?_⟩
  · rintro x ⟨⟩
  · intro t ht
    exact absurd ht List.not_mem_nil
  · rintro ⟨t, ht, -⟩
    exact absurd ht List.not_mem_nil

theorem answers_at_end {s : Layout} (hl : s.lookahead = none) (hi : s.scan.items = []) (n : Nat) :
    (s.answers (List.replicate n .nextRaw)).filter isSolid = [] := by
  obtain ⟨⟨items, finish⟩, lookahead, pending, widths, last⟩ := s
  obtain rfl : lookahead = none := hl
  obtain rfl : items = [] := hi
  induction n with
  | zero => rfl
  | succ n ih => exact ih

/-- Asked for the stream without structure often enough, a machine that has nothing read ahead hands
out what it owes, among line breaks and ends of the text. -/
theorem answers_nextRaw {source : String} {s : Layout} (ho : Orderly source s)
    (hl : s.lookahead = none) {n : Nat} (hn : s.scan.items.length ≤ n) :
    (s.answers (List.replicate n .nextRaw)).filter isSolid = s.owed := by
  obtain ⟨⟨items, finish⟩, lookahead, pending, widths, last⟩ := s
  obtain rfl : lookahead = none := hl
  induction items generalizing n with
  | nil => exact answers_at_end rfl rfl n
  | cons item items ih =>
    cases n with
    | zero => exact absurd hn (by simp)
    | succ n =>
      have hmem : item ∈ (Scan.ofText .dented source).items := ho.items.subset List.mem_cons_self
      have hafter : Orderly source ⟨⟨items, finish⟩, none, pending, widths, last⟩ :=
        (nextRaw_accounts ho).orderly
      have hrest := ih hafter (Nat.le_of_succ_le_succ hn)
      have hsame : isSolid (item.map Lexeme.token) = carriesText (item.map Lexeme.token) := by
        cases item with
        | error e =>
          obtain ⟨offset, rfl⟩ := Scan.error_of_mem_items hmem
          rfl
        | ok x =>
          show (x.kind != .newline && x.kind != .eof) = x.kind.isContent
          rcases Scan.kind_of_mem_items hmem with hk | hk
          · have hne := Scan.kind_ne_eof hmem
            have hnl : x.kind ≠ .newline := Kind.ne_of_isContent hk rfl
            simp [hk, hnl, hne]
          · rw [hk]
            rfl
      show (item.map Lexeme.token ::
          (⟨⟨items, finish⟩, none, pending, widths, last⟩ : Layout).answers
            (List.replicate n .nextRaw)).filter isSolid =
        (item.map Lexeme.token :: items.map (Except.map Lexeme.token)).filter carriesText
      rw [List.filter_cons, List.filter_cons, hsame, hrest]
      rfl

/-! ## Draining -/

/-- Draining is asking for the stream with structure until the end of the text or a fault. -/
theorem exists_answers_eq_drain (s : Layout) :
    ∃ n, s.answers (List.replicate n .next) =
      (Reader.structured s).drain.tokens.map .ok ++ [(Reader.structured s).drain.finish] := by
  generalize hw : s.weight = w
  induction w using Nat.strongRecOn generalizing s with
  | ind w ih =>
    cases hn : s.next with
    | mk answer s' =>
      have hnext : (Reader.structured s).next = (answer, .structured s') := by
        show (s.next.1, Reader.structured s.next.2) = _
        rw [hn]
      have hanswers : ∀ n, s.answers (List.replicate (n + 1) .next) =
          answer :: s'.answers (List.replicate n .next) := by
        intro n
        show s.next.1 :: s.next.2.answers _ = _
        rw [hn]
      cases answer with
      | error e =>
        refine ⟨1, ?_⟩
        rw [hanswers, Reader.drain_of_error hnext]
        rfl
      | ok t =>
        by_cases ht : t.kind = .eof
        · refine ⟨1, ?_⟩
          rw [hanswers, Reader.drain_of_eof hnext ht]
          rfl
        · obtain ⟨n, hrest⟩ := ih _ (hw ▸ next_weight_lt hn ht) s' rfl
          refine ⟨n + 1, ?_⟩
          rw [hanswers, Reader.drain_of_token hnext ht, hrest]
          rfl

theorem eq_of_standsFor_ok {source : String} {ts : List Token}
    {given : List (Except LexError Token)}
    (h : List.Forall₂ (StandsFor source) (ts.map .ok) given) : given = ts.map .ok := by
  induction ts generalizing given with
  | nil => exact List.forall₂_nil_left_iff.1 h
  | cons t ts ih =>
    rw [List.map_cons, List.forall₂_cons_left_iff] at h
    obtain ⟨r, rest, hr, hrest, rfl⟩ := h
    cases hr
    rw [ih hrest]
    rfl

theorem filter_carriesText_ok (ts : List Token) :
    (ts.map .ok).filter carriesText = (ts.filter (·.kind.isContent)).map .ok := by
  rw [List.filter_map]
  rfl

/-- A text whose stream with structure is drained without a fault has no faults, and the two streams
agree on the content tokens. -/
theorem content_of_drain {source : String} {t : Token}
    (h : (Variant.dented.drain source).finish = .ok t) :
    t.kind = .eof ∧ ∃ xs : List Lexeme, (Scan.ofText .dented source).items = xs.map .ok ∧
      (Variant.dented.drain source).tokens.filter (·.kind.isContent) =
        (xs.map Lexeme.token).filter (·.kind.isContent) := by
  have ht : t.kind = .eof := Reader.kind_of_drain_finish h
  refine ⟨ht, ?_⟩
  obtain ⟨n, hn⟩ := exists_answers_eq_drain (ofText source)
  obtain ⟨given, hgiven, -, hwhole⟩ :=
    answers_account (orderly_ofText source) (List.replicate n .next)
  change (Reader.structured (ofText source)).drain.finish = .ok t at h
  rw [h] at hn
  have heof : carriesText (.ok t) = false := by
    rw [carriesText, ht]
    rfl
  rw [hn, List.filter_append, List.filter_cons_of_neg (ne_true_of_eq_false heof), List.filter_nil,
    List.append_nil, filter_carriesText_ok] at hgiven
  have howed := hwhole ⟨t, hn ▸ by simp, ht⟩
  rw [eq_of_standsFor_ok hgiven] at howed
  -- A fault of the text would be owed, and no fault was answered.
  obtain ⟨xs, hxs⟩ : ∃ xs : List Lexeme, (Scan.ofText .dented source).items = xs.map .ok := by
    refine exists_eq_map_ok ?_
    intro e he
    obtain ⟨offset, rfl⟩ := Scan.error_of_mem_items he
    have hmem : .error (.unrecognized offset) ∈ (ofText source).owed :=
      List.mem_filter.2 ⟨List.mem_map.2 ⟨_, he, rfl⟩, rfl⟩
    rw [← howed] at hmem
    simp at hmem
  refine ⟨xs, hxs, ?_⟩
  have hxs' : (ofText source).owed = ((xs.map Lexeme.token).filter (·.kind.isContent)).map .ok := by
    show ((Scan.ofText .dented source).items.map (Except.map Lexeme.token)).filter carriesText = _
    rw [hxs, ← filter_carriesText_ok, List.map_map, List.map_map]
    rfl
  rw [hxs'] at howed
  exact List.map_injective_iff.2 (fun _ _ => Except.ok.inj) howed

/-- **No token is lost, doubled or moved between the two ways to ask.** Whatever calls are made on
one machine, faults and ends of the text included, the answers that carry text stand, one by one,
for a first part of what the stream without structure holds besides line breaks; once the end of the
text was answered, for all of it. So a stream with structure that is drained without a fault holds
exactly the content tokens of the stream without. -/
theorem answers_stand_for_raw_stream (source : String) :
    (∀ (calls : List Call) (n : Nat), source.length ≤ n →
      ∃ given, List.Forall₂ (StandsFor source)
          (((ofText source).answers calls).filter carriesText) given ∧
        given <+: ((ofText source).answers (List.replicate n .nextRaw)).filter isSolid ∧
        ((∃ t, .ok t ∈ (ofText source).answers calls ∧ t.kind = .eof) →
          given = ((ofText source).answers (List.replicate n .nextRaw)).filter isSolid)) ∧
    (∀ t, (Variant.dented.drain source).finish = .ok t →
      (∃ u, (Variant.rawDented.drain source).finish = .ok u) ∧
        (Variant.dented.drain source).tokens.filter (·.kind.isContent) =
          (Variant.rawDented.drain source).tokens.filter (·.kind.isContent)) := by
  constructor
  · intro calls n hn
    have hlen : (ofText source).scan.items.length ≤ n :=
      (Scan.length_items_le ..).trans (String.length_toList ▸ hn)
    rw [answers_nextRaw (orderly_ofText source) rfl hlen]
    exact answers_account (orderly_ofText source) calls
  · intro t ht
    obtain ⟨-, xs, hxs, hcontent⟩ := content_of_drain ht
    have hraw : Variant.rawDented.drain source =
        ⟨xs.map Lexeme.token, .ok (Lexeme.eof (Scan.ofText .dented source).finish).token⟩ := by
      rw [Variant.drain_rawDented, hxs, Drain.ofItems_map_ok]
    rw [hraw]
    exact ⟨⟨_, rfl⟩, hcontent⟩

/-- A width that no block has, a fault and the end of the text in one run of mixed calls, and a
block that is drained. -/
theorem answers_stand_for_raw_stream_mixed :
    (∃ given, List.Forall₂ (StandsFor "a\n  b\n c $d") (((ofText "a\n  b\n c $d").answers
        [.next, .next, .next, .next, .nextRaw, .next, .next, .next, .next, .next, .nextRaw]).filter
          carriesText) given ∧
      given = ((ofText "a\n  b\n c $d").answers (List.replicate 11 .nextRaw)).filter isSolid) ∧
    (Variant.dented.drain "a\n  b\nc").tokens.filter (·.kind.isContent) =
      (Variant.rawDented.drain "a\n  b\nc").tokens.filter (·.kind.isContent) := by
  constructor
  · have hlen : "a\n  b\n c $d".length ≤ 11 := by decide +kernel
    have heof : ∃ t, .ok t ∈ (ofText "a\n  b\n c $d").answers
        [.next, .next, .next, .next, .nextRaw, .next, .next, .next, .next, .next, .nextRaw] ∧
        t.kind = .eof := ⟨⟨.eof, 11, 11⟩, by decide +kernel, rfl⟩
    obtain ⟨given, hgiven, -, hwhole⟩ :=
      (answers_stand_for_raw_stream "a\n  b\n c $d").1 _ 11 hlen
    exact ⟨given, hgiven, hwhole heof⟩
  · have hfinish : (Variant.dented.drain "a\n  b\nc").finish = .ok ⟨.eof, 7, 7⟩ := by
      decide +kernel
    exact ((answers_stand_for_raw_stream "a\n  b\nc").2 _ hfinish).2

end Layout

end OffsideBench

import OffsideBench.Proofs.Layout.Rest

/-!
# The end of a text

A reader that is asked again and again, over faults, comes to the end of its text and stays there.
`Reader.EndsAfter` says when; draining is a first part of asking again and again
(`Reader.answers_of_drain`), so it is over by then.

Main statement: `Reader.streams_end_for_good`.
-/

namespace OffsideBench

namespace Reader

/-! ## Asking again and again -/

/-- The answer number `i` of a reader that is asked again and again, over faults and ends. -/
def answer (r : Reader) : Nat → Except LexError Token
  | 0 => r.next.1
  | i + 1 => r.next.2.answer i

/-- A reader of `source` gives `k` answers in front of the end of the text, and then that end
alone. -/
structure EndsAfter (source : String) (k : Nat) (r : Reader) : Prop where
  /-- No answer in front is an end. -/
  front : ∀ i < k, isEnd (r.answer i) = false
  /-- Each answer behind is the end. -/
  behind : ∀ i, k ≤ i → r.answer i = endOf source

section EndsAfter

variable {source : String} {r : Reader} {k : Nat}

theorem EndsAfter.zero (h : ∀ i, r.answer i = endOf source) : EndsAfter source 0 r := by
  refine ⟨?_, fun i _ => h i⟩
  intro i hi
  exact absurd hi (Nat.not_lt_zero i)

theorem EndsAfter.succ (hr : isEnd r.next.1 = false) (h : EndsAfter source k r.next.2) :
    EndsAfter source (k + 1) r := by
  refine ⟨?_, ?_⟩
  · intro i hi
    cases i with
    | zero => exact hr
    | succ i => exact h.front i (Nat.lt_of_succ_lt_succ hi)
  · intro i hi
    cases i with
    | zero => exact absurd hi (Nat.not_succ_le_zero k)
    | succ i => exact h.behind i (Nat.le_of_succ_le_succ hi)

theorem EndsAfter.next (h : EndsAfter source (k + 1) r) : EndsAfter source k r.next.2 := by
  refine ⟨?_, ?_⟩
  · intro i hi
    exact h.front (i + 1) (Nat.succ_lt_succ hi)
  · intro i hi
    exact h.behind (i + 1) (Nat.succ_le_succ hi)

/-- A drain is over when the end of the text is answered, or before that with a fault. -/
theorem EndsAfter.drain (h : EndsAfter source k r) :
    r.drain.tokens.length ≤ k ∧
      (r.drain.finish = endOf source ∨ ∃ e, r.drain.finish = .error e) := by
  induction k generalizing r with
  | zero =>
    have hanswer : r.next.1 = endOf source := h.behind 0 (Nat.le_refl 0)
    have hnext : r.next = (endOf source, r.next.2) := Prod.ext hanswer rfl
    rw [drain_of_eof hnext rfl]
    exact ⟨Nat.le_refl 0, .inl rfl⟩
  | succ k ih =>
    have hanswer : isEnd r.next.1 = false := h.front 0 (Nat.succ_pos k)
    cases hn : r.next with
    | mk answer r' =>
      rw [hn] at hanswer
      cases answer with
      | error e =>
        rw [drain_of_error hn]
        exact ⟨Nat.zero_le _, .inr ⟨e, rfl⟩⟩
      | ok t =>
        have ht : t.kind ≠ .eof := by
          intro ht
          rw [isEnd_ok.2 ht] at hanswer
          cases hanswer
        have hrest := h.next
        rw [hn] at hrest
        obtain ⟨hlength, hfinish⟩ := ih hrest
        rw [drain_of_token hn ht]
        exact ⟨Nat.succ_le_succ hlength, hfinish⟩

end EndsAfter

/-- A drain makes one call for each of its tokens, and one for what ends it. -/
theorem answers_of_drain (r : Reader) :
    (List.range (r.drain.tokens.length + 1)).map r.answer =
      r.drain.tokens.map .ok ++ [r.drain.finish] := by
  generalize hw : r.weight = w
  induction w using Nat.strongRecOn generalizing r with
  | ind w ih =>
    have hanswers : ∀ n, (List.range (n + 1)).map r.answer =
        r.next.1 :: (List.range n).map r.next.2.answer := by
      intro n
      rw [List.range_succ_eq_map, List.map_cons, List.map_map]
      rfl
    rw [hanswers]
    cases hn : r.next with
    | mk answer r' =>
      cases answer with
      | error e =>
        rw [drain_of_error hn]
        rfl
      | ok t =>
        by_cases ht : t.kind = .eof
        · rw [drain_of_eof hn ht]
          rfl
        · have hrest := ih _ (hw ▸ next_weight_lt hn ht) r' rfl
          rw [drain_of_token hn ht, List.length_cons, hrest, List.map_cons, List.cons_append]

/-! ## The three streams -/

theorem answer_resting {source : String} {finish : Position}
    (hf : (Lexeme.eof finish).token = Token.empty .eof source.utf8ByteSize) (i : Nat) :
    (structured (Layout.resting finish)).answer i = endOf source := by
  induction i with
  | zero => exact congrArg Except.ok hf
  | succ i ih => exact ih

/-- The stream with structure ends within the budget of its machine. -/
theorem exists_endsAfter_structured {source : String} {s : Layout} {ts : List Token}
    (ho : Layout.Orderly source s) (hb : Layout.Balanced s ts) (he : Layout.EndsWith source s) :
    ∃ k ≤ s.budget, EndsAfter source k (.structured s) := by
  generalize hn : s.budget = n
  induction n using Nat.strongRecOn generalizing s ts with
  | ind n ih =>
    cases hend : isEnd s.next.1 with
    | true =>
      obtain ⟨hanswer, finish, hf, hrest⟩ := Layout.next_of_isEnd ho hb he hend
      refine ⟨0, Nat.zero_le n, .zero ?_⟩
      intro i
      cases i with
      | zero => exact hanswer
      | succ i =>
        show (structured s.next.2).answer i = endOf source
        rw [hrest]
        exact answer_resting hf i
    | false =>
      have hpays := Layout.next_pays ho he
      have hlt := hpays.spent hend
      obtain ⟨k, hk, hrest⟩ := ih _ (hn ▸ hlt) (Layout.next_accounts ho).orderly
        (hb.next ho).balanced hpays.ends rfl
      exact ⟨k + 1, by omega, .succ hend hrest⟩

theorem answer_of_stream_nil {source : String} {s : Layout} (he : Layout.EndsWith source s)
    (hs : s.stream = []) (i : Nat) : (lines s).answer i = endOf source := by
  have hnext : (lines s).next = (endOf source, lines s) := by
    rw [next, Layout.nextRaw_of_stream_nil hs, he.finish]
    rfl
  induction i with
  | zero => rw [answer, hnext]
  | succ i ih =>
    rw [answer, hnext]
    exact ih

/-- The stream with plain line breaks ends with its items. -/
theorem exists_endsAfter_lines {source : String} {s : Layout} (ho : Layout.Orderly source s)
    (he : Layout.EndsWith source s) :
    ∃ k ≤ s.stream.length, EndsAfter source k (.lines s) := by
  generalize hn : s.stream.length = n
  induction n generalizing s with
  | zero =>
    have hs : s.stream = [] := List.eq_nil_of_length_eq_zero hn
    exact ⟨0, Nat.le_refl 0, .zero (answer_of_stream_nil he hs)⟩
  | succ n ih =>
    cases hend : isEnd s.nextRaw.1 with
    | true =>
      obtain ⟨hanswer, hs, he'⟩ := Layout.nextRaw_of_isEnd ho he hend
      refine ⟨0, Nat.zero_le _, .zero ?_⟩
      intro i
      cases i with
      | zero => exact hanswer
      | succ i => exact answer_of_stream_nil he' hs i
    | false =>
      have ho' := (Layout.nextRaw_accounts ho).orderly
      have he' := he.call ho .nextRaw
      have hlength : s.nextRaw.2.stream.length = n := by
        cases hs : s.stream with
        | nil =>
          rw [hs] at hn
          cases hn
        | cons item rest =>
          rw [hs] at hn
          rw [Layout.nextRaw_of_stream_cons hs]
          exact Nat.succ.inj hn
      obtain ⟨k, hk, hrest⟩ := ih ho' he' hlength
      exact ⟨k + 1, Nat.succ_le_succ hk, .succ hend hrest⟩

theorem answer_of_items_nil (finish : Position) (i : Nat) :
    (braced ⟨[], finish⟩).answer i = .ok (Lexeme.eof finish).token := by
  induction i with
  | zero => rfl
  | succ i ih => exact ih

/-- The braced stream ends with its items. -/
theorem endsAfter_braced {source : String} {finish : Position}
    (hf : (Lexeme.eof finish).token = Token.empty .eof source.utf8ByteSize)
    {items : List (Except LexError Lexeme)} (h : ∀ x, .ok x ∈ items → x.kind ≠ .eof) :
    EndsAfter source items.length (.braced ⟨items, finish⟩) := by
  induction items with
  | nil =>
    refine .zero ?_
    intro i
    rw [answer_of_items_nil, hf]
    rfl
  | cons item items ih =>
    refine .succ ?_ (ih fun x hx => h x (List.mem_cons_of_mem _ hx))
    cases item with
    | error e => rfl
    | ok x =>
      have hx : x.token.kind ≠ .eof := h x List.mem_cons_self
      show isEnd (.ok x.token) = false
      exact Bool.eq_false_iff.2 fun he => hx (isEnd_ok.1 he)

/-- Each stream of a text ends, in time. -/
theorem exists_endsAfter (v : Variant) (source : String) :
    ∃ k ≤ (if v = .dented then 2 * source.utf8ByteSize else source.utf8ByteSize),
      EndsAfter source k (v.reader source) := by
  have hdented := Scan.length_items_le_bytes .dented source
  have ho := Layout.orderly_ofText source
  have he := Layout.endsWith_ofText source
  cases v with
  | dented =>
    obtain ⟨k, hk, hends⟩ := exists_endsAfter_structured ho (.ofText source) he
    have hbudget : (Layout.ofText source).budget =
        2 * (Scan.ofText .dented source).items.length := rfl
    exact ⟨k, by simp only [if_true]; omega, hends⟩
  | rawDented =>
    obtain ⟨k, hk, hends⟩ := exists_endsAfter_lines ho he
    exact ⟨k, Nat.le_trans hk hdented, hends⟩
  | braced =>
    refine ⟨_, Scan.length_items_le_bytes .braced source, ?_⟩
    exact endsAfter_braced (Scan.eof_ofText .braced source) fun _ hx => Scan.kind_ne_eof hx

/-- **Every stream comes to its end and stays there.** Asked again and again, over faults, a reader
gives at most one answer for each byte of its text before the end, or two where it reads structure,
and from then on that end alone; a drain makes a first part of these calls. A layout machine that
gave the end of its text to a call for structure, whatever calls were made before, gives it to all
later calls of both kinds; one that gave it to a call without structure gives it to all later calls
of that kind. -/
theorem streams_end_for_good (source : String) :
    (∀ v : Variant,
      ∃ k ≤ (if v = .dented then 2 * source.utf8ByteSize else source.utf8ByteSize),
        (∀ i < k, isEnd ((v.reader source).answer i) = false) ∧
        (∀ i, k ≤ i → (v.reader source).answer i = endOf source) ∧
        (v.drain source).tokens.length ≤ k ∧
        (List.range ((v.drain source).tokens.length + 1)).map (v.reader source).answer =
          (v.drain source).tokens.map .ok ++ [(v.drain source).finish] ∧
        ((v.drain source).finish = endOf source ∨ ∃ e, (v.drain source).finish = .error e)) ∧
    (∀ before : List Layout.Call, isEnd ((Layout.ofText source).after before).next.1 = true →
      ∀ later : List Layout.Call,
        ∀ a ∈ ((Layout.ofText source).after before).answers (.next :: later),
          a = endOf source) ∧
    (∀ before : List Layout.Call, isEnd ((Layout.ofText source).after before).nextRaw.1 = true →
      ∀ m : Nat,
        ∀ a ∈ ((Layout.ofText source).after before).answers (List.replicate (m + 1) .nextRaw),
          a = endOf source) := by
  refine ⟨?_, ?_, ?_⟩
  · intro v
    obtain ⟨k, hk, hends⟩ := exists_endsAfter v source
    obtain ⟨hlength, hfinish⟩ := hends.drain
    exact ⟨k, hk, hends.front, hends.behind, hlength, answers_of_drain _, hfinish⟩
  · intro before hend later a ha
    obtain ⟨ho, hb⟩ := Layout.Balanced.after (Layout.orderly_ofText source) (.ofText source) before
    have he := (Layout.endsWith_ofText source).after (Layout.orderly_ofText source) before
    obtain ⟨hanswer, finish, hf, hrest⟩ := Layout.next_of_isEnd ho hb he hend
    rw [Layout.answers] at ha
    rcases List.mem_cons.1 ha with ha | ha
    · exact ha.trans hanswer
    · rw [show (Layout.call _ .next).2 = _ from hrest] at ha
      rw [Layout.eq_of_mem_answers_resting ha, hf]
      rfl
  · intro before hend m a ha
    obtain ⟨ho, -⟩ := Layout.Balanced.after (Layout.orderly_ofText source) (.ofText source) before
    have he := (Layout.endsWith_ofText source).after (Layout.orderly_ofText source) before
    obtain ⟨hanswer, hs, he'⟩ := Layout.nextRaw_of_isEnd ho he hend
    rw [List.replicate_succ, Layout.answers] at ha
    rcases List.mem_cons.1 ha with ha | ha
    · exact ha.trans hanswer
    · exact Layout.eq_of_mem_answers_nextRaw he' hs ha

/-- The statement of `Reader.streams_end_for_good` behind a width which no block has and a character
that starts no token, and for the stream without structure of a text that is read in part with it. -/
theorem streams_end_for_good_mixed :
    (∃ k ≤ 22, ∀ i, k ≤ i →
      (Variant.dented.reader "a\n  b\n c $d").answer i = .ok ⟨.eof, 11, 11⟩) ∧
    (isEnd ((Layout.ofText "a\n  b\n c $d").after (List.replicate 10 .next)).next.1 = true ∧
      ∀ a ∈ ((Layout.ofText "a\n  b\n c $d").after (List.replicate 10 .next)).answers
        [.next, .nextRaw, .next, .next, .nextRaw], a = .ok ⟨.eof, 11, 11⟩) ∧
    (isEnd ((Layout.ofText "a\n  b\nc").after [.next, .next, .nextRaw, .next]).nextRaw.1 = false ∧
      isEnd ((Layout.ofText "a\n  b\nc").after
        [.next, .next, .nextRaw, .next, .nextRaw]).nextRaw.1 = true ∧
      ∀ a ∈ ((Layout.ofText "a\n  b\nc").after [.next, .next, .nextRaw, .next, .nextRaw]).answers
        (List.replicate 3 .nextRaw), a = .ok ⟨.eof, 7, 7⟩) := by
  have hmixed : isEnd ((Layout.ofText "a\n  b\n c $d").after (List.replicate 10 .next)).next.1 =
      true := by decide +kernel
  have hfalse : isEnd ((Layout.ofText "a\n  b\nc").after
      [.next, .next, .nextRaw, .next]).nextRaw.1 = false := by decide +kernel
  have hraw : isEnd ((Layout.ofText "a\n  b\nc").after
      [.next, .next, .nextRaw, .next, .nextRaw]).nextRaw.1 = true := by decide +kernel
  obtain ⟨hends, hall, -⟩ := streams_end_for_good "a\n  b\n c $d"
  obtain ⟨-, -, hlines⟩ := streams_end_for_good "a\n  b\nc"
  obtain ⟨k, hk, -, hbehind, -⟩ := hends .dented
  exact ⟨⟨k, hk, hbehind⟩, ⟨hmixed, hall _ hmixed _⟩, hfalse, hraw, hlines _ hraw 2⟩

end Reader

end OffsideBench

import OffsideBench.Proofs.CodeLines
import OffsideBench.Proofs.Layout.Calls

/-!
# Blocks

The stream with structure of a text is made of items. An item is a line of code that is ended by a
line break, or one that opens a block of at least one item. While blocks are open, what is still to
come are the closings of these blocks, each followed by further items of the block around it
(`Closes`); that is what one line after the other preserves.

Main statement: `Layout.structured_stream_is_made_of_blocks`.
-/

namespace OffsideBench

open Token (Kind)

/-- The tokens of a row of items, and the lines of code in them. -/
inductive Items : List (List Token) → List Token → Prop where
  /-- No items. -/
  | nil : Items [] []
  /-- A line without a block, and further items. -/
  | line {g : List Token} {n : Token} {gs : List (List Token)} {ts : List Token} (hg : IsLine g)
      (hn : n.kind = .newline) (h : Items gs ts) : Items (g :: gs) (g ++ n :: ts)
  /-- A line with a block of items behind it, and further items. -/
  | block {g : List Token} {i d : Token} {inner gs : List (List Token)} {ts us : List Token}
      (hg : IsLine g) (hi : i.kind = .indent) (hne : inner ≠ []) (hin : Items inner ts)
      (hd : d.kind = .dedent) (h : Items gs us) :
      Items (g :: (inner ++ gs)) (g ++ i :: (ts ++ d :: us))

/-- What is to come in front of the end when `n` blocks are to be closed: each closing is followed
by further items of the block around it. -/
def Closes : Nat → List (List Token) → List Token → Prop
  | 0, gs, ts => gs = [] ∧ ts = []
  | n + 1, gs, ts =>
    ∃ d inner outer us vs, d.kind = Kind.dedent ∧ gs = inner ++ outer ∧ ts = d :: (us ++ vs) ∧
      Items inner us ∧ Closes n outer vs

/-- What is to come behind the content of a line when `n` blocks are open: the end of that line, be
it with a block, further items of the innermost block, and then the closings. -/
def Ends (n : Nat) (gs : List (List Token)) (ts : List Token) : Prop :=
  ∃ inner outer us vs, gs = inner ++ outer ∧ ts = us ++ vs ∧ Closes n outer vs ∧
    ∀ g, IsLine g → Items (g :: inner) (g ++ us)

/-! ## Counting -/

namespace Items

variable {gs : List (List Token)} {ts : List Token}

/-- As many blocks are closed as are opened. -/
theorem count_dedent (h : Items gs ts) :
    (ts.map Token.kind).count .dedent = (ts.map Token.kind).count .indent := by
  induction h with
  | nil => rfl
  | line hg hn h ih =>
    rw [List.map_append, List.map_cons, hn, List.count_append, List.count_append,
      hg.count_kind rfl, hg.count_kind rfl]
    simpa using ih
  | block hg hi hne hin hd h ihin ih =>
    rw [List.map_append, List.map_cons, List.map_append, List.map_cons, hi, hd, List.count_append,
      List.count_append, hg.count_kind rfl, hg.count_kind rfl]
    simp only [List.count_append, List.count_cons, ihin, ih]
    simp
    omega

/-- Each line ends in a line break or opens a block. -/
theorem count_newline (h : Items gs ts) :
    (ts.map Token.kind).count .newline + (ts.map Token.kind).count .indent = gs.length := by
  induction h with
  | nil => rfl
  | line hg hn h ih =>
    rw [List.map_append, List.map_cons, hn, List.count_append, List.count_append,
      hg.count_kind rfl, hg.count_kind rfl, List.length_cons, ← ih]
    simp
    omega
  | block hg hi hne hin hd h ihin ih =>
    rw [List.map_append, List.map_cons, List.map_append, List.map_cons, hi, hd, List.count_append,
      List.count_append, hg.count_kind rfl, hg.count_kind rfl, List.length_cons,
      List.length_append, ← ihin, ← ih]
    simp only [List.count_append, List.count_cons]
    simp
    omega

/-- All tokens are content tokens, or end a line, or open or close a block. -/
theorem length_eq (h : Items gs ts) :
    ts.length = (ts.map Token.kind).countP Kind.isContent + gs.length +
      (ts.map Token.kind).count .indent := by
  induction h with
  | nil => rfl
  | line hg hn h ih =>
    rw [List.map_append, List.map_cons, hn, List.count_append, List.countP_append,
      hg.count_kind rfl, hg.countP_isContent, List.length_append, List.length_cons,
      List.length_cons, ih, List.countP_cons_of_neg (by decide), List.count_cons_of_ne (by decide)]
    omega
  | block hg hi hne hin hd h ihin ih =>
    rw [List.map_append, List.map_cons, List.map_append, List.map_cons, hi, hd, List.count_append,
      List.countP_append, hg.count_kind rfl, hg.countP_isContent,
      List.countP_cons_of_neg (by decide), List.count_cons_self, List.countP_append,
      List.count_append, List.countP_cons_of_neg (by decide), List.count_cons_of_ne (by decide)]
    simp only [List.length_append, List.length_cons, ihin, ih]
    omega

end Items

/-! ## Blocks end -/

/-- Several blocks are closed at once, and items of the block around the last of them follow. -/
theorem Closes.replicate {n k : Nat} {d : Token} {inner outer : List (List Token)}
    {us vs : List Token} (hd : d.kind = .dedent) (hin : Items inner us) (h : Closes n outer vs) :
    Closes (n + (k + 1)) (inner ++ outer) (List.replicate (k + 1) d ++ (us ++ vs)) := by
  induction k with
  | zero => exact ⟨d, inner, outer, us, vs, hd, rfl, rfl, hin, h⟩
  | succ k ih => exact ⟨d, [], inner ++ outer, [], _, hd, rfl, rfl, .nil, ih⟩

namespace Ends

variable {n : Nat} {g : List Token} {gs : List (List Token)} {ts : List Token}

/-- At the end of the text the last line is ended and all blocks are closed. -/
theorem finish {b d : Token} (hb : b.kind = .newline) (hd : d.kind = .dedent) :
    Ends n [] (b :: List.replicate n d) := by
  refine ⟨[], [], [b], List.replicate n d, rfl, rfl, ?_, fun g hg => .line hg hb .nil⟩
  cases n with
  | zero => exact ⟨rfl, rfl⟩
  | succ n =>
    have h := Closes.replicate (n := 0) (k := n) hd .nil ⟨rfl, rfl⟩
    rw [Nat.zero_add, List.append_nil, List.append_nil, List.append_nil] at h
    exact h

/-- A line break ends a line; it may close blocks in front of the next line. -/
theorem newline {b d : Token} (hb : b.kind = .newline) (hd : d.kind = .dedent) (hg : IsLine g)
    (h : Ends n gs ts) (k : Nat) :
    Ends (n + k) (g :: gs) (b :: (List.replicate k d ++ (g ++ ts))) := by
  obtain ⟨inner, outer, us, vs, rfl, rfl, hclose, hitems⟩ := h
  have hnext := hitems g hg
  -- Without a closing the next line stands in the same block; behind closings it is an item of the
  -- block around the last one that is closed.
  cases k with
  | zero =>
    refine ⟨g :: inner, outer, b :: (g ++ us), vs, rfl, ?_, hclose, ?_⟩
    · rw [List.replicate_zero, List.nil_append, List.cons_append, List.append_assoc]
    · intro g' hg'
      exact .line hg' hb hnext
  | succ k =>
    refine ⟨[], g :: inner ++ outer, [b], _, rfl, rfl, ?_, fun g' hg' => .line hg' hb .nil⟩
    rw [← List.append_assoc g us vs]
    exact Closes.replicate hd hnext hclose

/-- A line may open a block, which begins with the next line. -/
theorem indent {i : Token} (hi : i.kind = .indent) (hg : IsLine g) (h : Ends (n + 1) gs ts) :
    Ends n (g :: gs) (i :: (g ++ ts)) := by
  obtain ⟨inner, outer, us, vs, rfl, rfl, ⟨d, inner', outer', us', vs', hd, rfl, rfl, hin, hclose⟩,
    hitems⟩ := h
  refine ⟨g :: inner ++ inner', outer', i :: (g ++ us ++ d :: us'), vs', ?_, ?_, hclose, ?_⟩
  · simp
  · simp
  · intro g' hg'
    exact .block hg' hi (List.cons_ne_nil _ _) (hitems g hg) hd hin

end Ends

namespace Layout

/-- What is drained behind the content of a line ends that line and then all blocks. -/
theorem ends_outline {finish : Position} {widths : List UInt32} {ls : List Line} {t : Token}
    (hls : ∀ l ∈ ls, IsLine l.tokens ∧ ∃ n, l.newline? = some n ∧ n.kind = .newline)
    (h : (outline finish widths ls).finish = .ok t) :
    Ends widths.length (ls.map Line.tokens) (outline finish widths ls).tokens := by
  induction ls generalizing widths with
  | nil => exact Ends.finish rfl rfl
  | cons l ls ih =>
    obtain ⟨hline, n, hn, hk⟩ := hls l List.mem_cons_self
    have hrest := fun m hm => hls m (List.mem_cons_of_mem l hm)
    cases hturn : turn widths n with
    | error e =>
      rw [outline_of_turn_error hn hturn] at h
      cases h
    | ok o =>
      obtain ⟨ts, widths'⟩ := o
      rw [outline_of_turn hn hturn] at h ⊢
      have hends := ih hrest h
      rcases turn_cases hturn with ⟨-, rfl, rfl⟩ | ⟨-, rfl, hw, -⟩
      · exact Ends.indent rfl hline hends
      · have hle := closeTo_length_le n.stop.width widths
        rw [← hw] at hle
        have hnext := Ends.newline (b := n.token) (d := .empty .dedent n.stop.offset) hk rfl hline
          hends (widths.length - widths'.length)
        rw [Nat.add_sub_cancel' hle] at hnext
        rw [Drain.behind, List.cons_append, List.cons_append, List.append_assoc]
        exact hnext

/-- What is drained of a whole text is a row of items. -/
theorem items_outlineText {finish : Position} {ls : List Line} {t : Token}
    (hls : ∀ l ∈ ls, IsLine l.tokens)
    (hn : ∀ l ∈ ls.tail, ∃ n, l.newline? = some n ∧ n.kind = .newline)
    (h : (outlineText finish ls).finish = .ok t) :
    Items (ls.map Line.tokens) (outlineText finish ls).tokens := by
  cases ls with
  | nil => exact .nil
  | cons l ls =>
    have hline := hls l List.mem_cons_self
    rw [outlineText] at h ⊢
    by_cases hw : 0 < l.first.start.width
    · rw [if_pos hw] at h
      cases h
    · rw [if_neg hw] at h ⊢
      obtain ⟨inner, outer, us, vs, hgs, hts, ⟨rfl, rfl⟩, hitems⟩ := ends_outline
        (fun m hm => ⟨hls m (List.mem_cons_of_mem _ hm), hn m hm⟩) h
      rw [List.append_nil] at hgs hts
      rw [List.map_cons, hgs, Drain.behind, hts]
      exact hitems _ hline

end Layout

/-- **A stream with structure is made of blocks.** When the stream with structure of a text is
drained without a fault it ends in the end of the text, and its tokens are a row of items: lines of
code that are ended by a line break, or that open a block of at least one item. The lines are the
lines of code of the text. So as many blocks are closed as are opened, each line ends in a line
break or in a block, and the number of tokens is that of content tokens, lines and blocks. -/
theorem Layout.structured_stream_is_made_of_blocks {source : String} {t : Token}
    (h : (Variant.dented.drain source).finish = .ok t) :
    t.kind = .eof ∧ Items (codeLines source) (Variant.dented.drain source).tokens ∧
      (Variant.dented.drain source).kinds.count .dedent =
        (Variant.dented.drain source).kinds.count .indent ∧
      (Variant.dented.drain source).kinds.count .newline +
        (Variant.dented.drain source).kinds.count .indent = (codeLines source).length ∧
      (Variant.dented.drain source).count =
        .ok ((Variant.dented.drain source).kinds.countP Kind.isContent +
          (codeLines source).length + (Variant.dented.drain source).kinds.count .indent) := by
  obtain ⟨ht, xs, hxs, -⟩ := content_of_drain h
  have hitems : Items (codeLines source) (Variant.dented.drain source).tokens := by
    rw [Variant.drain_dented hxs] at h ⊢
    rw [codeLines_eq hxs]
    exact items_outlineText (Line.isLine_of_mem hxs) (Line.exists_newline_of_mem_tail hxs) h
  refine ⟨ht, hitems, hitems.count_dedent, hitems.count_newline, ?_⟩
  rw [Drain.count, h]
  exact congrArg Except.ok hitems.length_eq

/-- The statement of `Layout.structured_stream_is_made_of_blocks` for a text with a blank line and a
comment inside of blocks, two blocks that end at once, and no line break at its end. -/
theorem Layout.structured_stream_is_made_of_blocks_nested :
    (Variant.dented.drain "if a:\n  if b:\n\n    c\n# d\n  e\n  if f:\n    g\nh").finish =
        .ok ⟨.eof, 44, 44⟩ ∧
      Items (codeLines "if a:\n  if b:\n\n    c\n# d\n  e\n  if f:\n    g\nh")
        (Variant.dented.drain "if a:\n  if b:\n\n    c\n# d\n  e\n  if f:\n    g\nh").tokens := by
  have hfinish : (Variant.dented.drain
      "if a:\n  if b:\n\n    c\n# d\n  e\n  if f:\n    g\nh").finish = .ok ⟨.eof, 44, 44⟩ := by
    decide +kernel
  exact ⟨hfinish, (structured_stream_is_made_of_blocks hfinish).2.1⟩

end OffsideBench

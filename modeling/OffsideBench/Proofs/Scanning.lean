import OffsideBench.Proofs.LongestMatch

/-!
# Scanning a text

The plain stream of a form cuts its text into stretches, each the longest match at its place, and
stops at the end of the text or in front of something that begins no stretch (`Dialect.Cuts`). What
was cut off stays cut the same way when the text ends there, since a match that is longest in front
of more text is longest in front of less.

Main statement: `Dialect.scanning_is_lossless_and_exact`.
-/

namespace OffsideBench

open Token (Kind)

/-- The number of bytes that characters take. -/
def byteSize (cs : List Char) : Nat := (String.ofList cs).utf8ByteSize

theorem byteSize_append (as bs : List Char) : byteSize (as ++ bs) = byteSize as + byteSize bs := by
  rw [byteSize, String.ofList_append, String.utf8ByteSize_append]
  rfl

theorem byteSize_pos {cs : List Char} (h : cs ≠ []) : 0 < byteSize cs := by
  refine Nat.pos_of_ne_zero fun h0 => h ?_
  have hempty := String.utf8ByteSize_eq_zero_iff.1 h0
  simpa using congrArg String.toList hempty

namespace Stretch

variable {s : Stretch} {ss : List Stretch}

/-- The token that a stretch at a byte offset is, if it is one. -/
def tokenAt? (offset : Nat) (s : Stretch) : Option Token :=
  match s.role with
  | .token k => some ⟨k, offset, offset + byteSize s.text⟩
  | .gap | .fault => none

/-- The tokens among stretches that stand one behind the other from a byte offset on. -/
def tokensFrom (offset : Nat) : List Stretch → List Token
  | [] => []
  | s :: ss => (s.tokenAt? offset).toList ++ tokensFrom (offset + byteSize s.text) ss

theorem lt_of_mem_tokensFrom (h : ∀ s ∈ ss, s.text ≠ []) {offset : Nat} {t : Token}
    (ht : t ∈ tokensFrom offset ss) : t.start < t.stop := by
  induction ss generalizing offset with
  | nil => cases ht
  | cons s ss ih =>
    obtain ⟨hs, hss⟩ := List.forall_mem_cons.1 h
    rcases List.mem_append.1 ht with ht | ht
    · unfold tokenAt? at ht
      split at ht
      · obtain rfl := List.mem_singleton.1 ht
        exact Nat.lt_add_of_pos_right (byteSize_pos hs)
      · cases ht
      · cases ht
    · exact ih hss ht

theorem map_text?_tokenAt? (front : List Char) (s : Stretch) (rest : List Char) :
    (s.tokenAt? (byteSize front)).map (fun t =>
        (t.kind, t.text? (String.ofList (front ++ s.text ++ rest)))) = s.reading := by
  have hslice := Token.slice?_append (String.ofList front) (String.ofList s.text)
    (String.ofList rest)
  rw [← String.ofList_append, ← String.ofList_append] at hslice
  unfold tokenAt? reading
  cases s.role with
  | token k => exact congrArg (fun text => some (k, text)) hslice
  | gap => rfl
  | fault => rfl

theorem map_text?_tokensFrom (front : List Char) (ss : List Stretch) (rest : List Char) :
    (tokensFrom (byteSize front) ss).map (fun t =>
        (t.kind, t.text? (String.ofList (front ++ ss.flatMap Stretch.text ++ rest)))) =
      ss.filterMap Stretch.reading := by
  induction ss generalizing front with
  | nil => rfl
  | cons s ss ih =>
    have hwhole : front ++ (s :: ss).flatMap Stretch.text ++ rest =
        front ++ s.text ++ (ss.flatMap Stretch.text ++ rest) := by simp
    have hfirst := map_text?_tokenAt? front s (ss.flatMap Stretch.text ++ rest)
    have htail := ih (front ++ s.text)
    rw [byteSize_append, List.append_assoc] at htail
    rw [hwhole, tokensFrom, List.map_append, htail, ← Option.toList_map, hfirst]
    cases hr : s.reading with
    | none => rw [List.filterMap_cons_none hr]; rfl
    | some r => rw [List.filterMap_cons_some hr]; rfl

end Stretch

namespace Dialect

variable {d : Dialect} {cs rest : List Char} {ss : List Stretch}

/-- The text `cs` is cut into the stretches `ss`, one behind the other, in front of `rest`. Each
stretch matches the pattern of its role, and no match at its place is longer. -/
inductive Cuts (d : Dialect) : List Char → List Stretch → List Char → Prop where
  | stop {rest : List Char} : Cuts d rest [] rest
  | stretch {s : Stretch} {cs : List Char} {ss : List Stretch} {rest : List Char}
      (hmatch : d.Matches s.role s.text) (hlongest : d.Longest s.text cs)
      (htail : Cuts d cs ss rest) : Cuts d (s.text ++ cs) (s :: ss) rest

namespace Cuts

theorem eq_append (h : d.Cuts cs ss rest) : cs = ss.flatMap Stretch.text ++ rest := by
  induction h with
  | stop => rfl
  | stretch _ _ _ ih => rw [List.flatMap_cons, List.append_assoc, ← ih]

theorem matches_of_mem (h : d.Cuts cs ss rest) {s : Stretch} (hs : s ∈ ss) :
    d.Matches s.role s.text := by
  induction h with
  | stop => cases hs
  | stretch hmatch _ _ ih =>
    rcases List.mem_cons.1 hs with rfl | hs
    · exact hmatch
    · exact ih hs

theorem without_rest (h : d.Cuts cs ss rest) : d.Cuts (ss.flatMap Stretch.text) ss [] := by
  induction h with
  | stop => exact .stop
  | @stretch s cs ss rest hmatch hlongest htail ih =>
    -- a match that is longest in front of more text is longest in front of less
    rw [htail.eq_append] at hlongest
    exact .stretch hmatch hlongest.of_append ih

/-- A scan reads the stretches of a text, and then goes on with the rest. -/
theorem drain_ofChars (h : d.Cuts cs ss rest) (front : List Char) (finish : Position) :
    Drain.ofItems finish (Scan.ofChars d (Position.origin.past front) cs).items =
      let behind := Drain.ofItems finish
        (Scan.ofChars d (Position.origin.past (front ++ ss.flatMap Stretch.text)) rest).items
      ⟨Stretch.tokensFrom (byteSize front) ss ++ behind.tokens, behind.finish⟩ := by
  -- `front` is what was read already: it grows by each stretch, and the offsets with it
  induction h generalizing front with
  | stop => simp [Stretch.tokensFrom]
  | @stretch s cs ss rest hmatch hlongest htail ih =>
    obtain ⟨role, text⟩ := s
    obtain ⟨c, bs, rfl⟩ := List.exists_cons_of_ne_nil hmatch.ne_nil
    have htail := ih (front ++ c :: bs)
    rw [byteSize_append, List.append_assoc] at htail
    rw [List.flatMap_cons]
    show Drain.ofItems finish
      (Scan.ofChars d (Position.origin.past front) (c :: (bs ++ cs))).items = _
    rw [Scan.items_ofChars_cons, piece_of_longest hmatch hlongest]
    cases role with
    | token k =>
      have htoken : (Lexeme.behind front k (c :: bs)).token =
          ⟨k, byteSize front, byteSize front + byteSize (c :: bs)⟩ := by
        rw [← byteSize_append, Lexeme.token, Lexeme.behind, Position.origin_past_offset,
          Position.origin_past_offset]
        rfl
      show Drain.ofItems finish (.ok (Lexeme.behind front k (c :: bs)) ::
        (Scan.ofChars d (Position.origin.past (front ++ c :: bs)) cs).items) = _
      rw [Drain.ofItems, htail, htoken]
      rfl
    | gap => exact htail
    | fault => cases hmatch

end Cuts

theorem exists_cuts (d : Dialect) (cs : List Char) :
    ∃ ss rest, d.Cuts cs ss rest ∧ ∀ c tail, rest = c :: tail → (d.piece c tail).role = .fault := by
  fun_induction d.stretches cs with
  | case1 =>
    refine ⟨[], [], .stop, ?_⟩
    intro c tail hrest
    cases hrest
  | case2 c cs ih =>
    by_cases hfault : (d.piece c cs).role = .fault
    · refine ⟨[], c :: cs, .stop, ?_⟩
      intro b tail hrest
      obtain ⟨rfl, rfl⟩ := List.cons.inj hrest
      exact hfault
    · obtain ⟨ss, rest, hcuts, hrest⟩ := ih
      refine ⟨⟨(d.piece c cs).role, (d.piece c cs).text⟩ :: ss, rest, ?_, hrest⟩
      have hwhole := Cuts.stretch (s := ⟨_, _⟩) (matches_piece hfault) (d.longest_piece c cs) hcuts
      rwa [piece_text_append_rest] at hwhole

theorem role_of_newline {r : Piece.Role} (h : Dialect.dented.Matches r cs) (hn : '\n' ∈ cs) :
    r = .token .newline := by
  cases r with
  | gap =>
    cases h with
    | @blanks c cs hc hcs =>
      rcases List.mem_cons.1 hn with rfl | hn
      · exact absurd hc (by decide)
      · exact absurd (hcs _ hn) (by decide)
    | comment hcs =>
      rcases List.mem_cons.1 hn with hn | hn
      · exact absurd hn (by decide)
      · exact absurd (hcs _ hn) (by decide)
  | token k =>
    by_contra hk
    exact h.1.not_mem_newline (fun e => hk (e ▸ rfl)) hn
  | fault => cases h

/-! ## The plain stream of a form -/

/-- The variant that reads the plain stream of a form. -/
def plainVariant : Dialect → Variant
  | .dented => .rawDented
  | .braced => .braced

theorem drain_plainVariant (d : Dialect) (source : String) : d.plainVariant.drain source =
    Drain.ofItems (Scan.ofText d source).finish (Scan.ofText d source).items := by
  cases d with
  | dented => exact Variant.drain_rawDented source
  | braced => exact Variant.drain_braced source

/-- What the tokens of a stream say about its text, which was cut into the stretches `ss` up to
`rest`. -/
structure Scanned (d : Dialect) (source : String) (ts : List Token) (ss : List Stretch)
    (rest : List Char) : Prop where
  /-- The stretches make up the text in front of the rest. -/
  lossless : source.toList = ss.flatMap Stretch.text ++ rest
  /-- Each stretch is blanks, a comment or a token by its pattern, and cannot be extended. -/
  cuts : d.Cuts source.toList ss rest
  /-- The tokens are those stretches that are no gaps, each with the bytes that it covers. -/
  tokens : ts = Stretch.tokensFrom 0 ss
  /-- No token is empty. -/
  nonempty : ∀ t ∈ ts, t.start < t.stop
  /-- The spans of the tokens cut their texts out of the source, between characters. -/
  texts : ts.map (fun t => (t.kind, t.text? source)) = ss.filterMap Stretch.reading
  /-- A stretch is a keyword if its whole text is one, and only then. -/
  keywords : ∀ s ∈ ss, ∀ word k, (word, k) ∈ Dialect.keywords →
    (s.role = .token k ↔ String.ofList s.text = word)
  /-- In the dented form line feeds stand in line breaks. -/
  lineFeeds : d = .dented → ∀ s ∈ ss, '\n' ∈ s.text → s.role = .token .newline

theorem Cuts.scanned {source : String} (h : d.Cuts source.toList ss rest) :
    Scanned d source (Stretch.tokensFrom 0 ss) ss rest where
  lossless := h.eq_append
  cuts := h
  tokens := rfl
  nonempty _ := Stretch.lt_of_mem_tokensFrom fun _ hs => (h.matches_of_mem hs).ne_nil
  texts := by
    have htexts := Stretch.map_text?_tokensFrom [] ss rest
    rw [List.nil_append, ← h.eq_append, String.ofList_toList] at htexts
    exact htexts
  keywords _ hs _ _ hword := (h.matches_of_mem hs).keyword_iff hword
  lineFeeds := by
    rintro rfl s hs hn
    exact role_of_newline (h.matches_of_mem hs) hn

theorem Cuts.drain_plainVariant {source : String} (h : d.Cuts source.toList ss []) :
    d.plainVariant.drain source =
      ⟨Stretch.tokensFrom 0 ss, .ok (Token.empty .eof source.utf8ByteSize)⟩ := by
  have hdrain := h.drain_ofChars [] (Scan.ofText d source).finish
  rw [Scan.ofChars_nil] at hdrain
  rw [Dialect.drain_plainVariant, ← Scan.eof_ofText d source]
  refine hdrain.trans ?_
  simp [Drain.ofItems, byteSize]

theorem Cuts.drain_plainVariant_fault {source : String} {c : Char}
    (h : d.Cuts source.toList ss (c :: cs)) (hfault : (d.piece c cs).role = .fault) :
    d.plainVariant.drain source = ⟨Stretch.tokensFrom 0 ss,
      .error (.unrecognized (byteSize (ss.flatMap Stretch.text)))⟩ := by
  have hdrain := h.drain_ofChars [] (Scan.ofText d source).finish
  rw [Scan.items_ofChars_cons, hfault] at hdrain
  rw [Dialect.drain_plainVariant]
  refine hdrain.trans ?_
  simp [Drain.ofItems, byteSize, Scan.item?, Position.origin_past_offset]

/-- **Scanning is lossless and exact.** The plain stream of a form loses nothing of its text and cuts
it exactly. It reaches the end of the text, or stops at the byte where something begins that is
neither a token nor skipped; the bytes in front of that alone give the same tokens and then the
end. -/
theorem scanning_is_lossless_and_exact (d : Dialect) (source : String) :
    ∃ ss rest, Scanned d source (d.plainVariant.drain source).tokens ss rest ∧
      (rest = [] ∧ (d.plainVariant.drain source).finish =
          .ok (Token.empty .eof source.utf8ByteSize) ∨
        d.Rejects rest ∧ ∃ k scanned,
          (d.plainVariant.drain source).finish = .error (.unrecognized k) ∧
          Token.slice? source 0 k = some scanned ∧
          scanned.toList = ss.flatMap Stretch.text ∧
          d.plainVariant.drain scanned =
            ⟨(d.plainVariant.drain source).tokens, .ok (Token.empty .eof k)⟩) := by
  obtain ⟨ss, rest, hcuts, hrest⟩ := exists_cuts d source.toList
  refine ⟨ss, rest, ?_⟩
  cases rest with
  | nil =>
    rw [hcuts.drain_plainVariant]
    exact ⟨hcuts.scanned, .inl ⟨rfl, rfl⟩⟩
  | cons c cs =>
    have hfault := hrest c cs rfl
    rw [hcuts.drain_plainVariant_fault hfault]
    refine ⟨hcuts.scanned, .inr ⟨rejects_of_fault hfault, _,
      String.ofList (ss.flatMap Stretch.text), rfl, ?_, String.toList_ofList, ?_⟩⟩
    · have hsource : source =
          "" ++ String.ofList (ss.flatMap Stretch.text) ++ String.ofList (c :: cs) := by
        rw [String.empty_append, ← String.ofList_append, ← hcuts.eq_append, String.ofList_toList]
      have hslice := Token.slice?_append "" (String.ofList (ss.flatMap Stretch.text))
        (String.ofList (c :: cs))
      rw [← hsource, String.utf8ByteSize_empty, Nat.zero_add] at hslice
      exact hslice
    · have halone := hcuts.without_rest
      rw [← String.toList_ofList (l := ss.flatMap Stretch.text)] at halone
      exact halone.drain_plainVariant

end Dialect

end OffsideBench

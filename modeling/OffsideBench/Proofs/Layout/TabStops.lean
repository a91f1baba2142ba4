import OffsideBench.Proofs.Layout.Agreement
import OffsideBench.Proofs.LongestMatch

/-!
# Tab stops

A tab in the indentation of a line means the spaces that lead to the next multiple of eight. Writing
those spaces in its place changes no piece of the text but line breaks, which take the indentation
behind them along, and leads to the same column as before: also where the width wraps around, since
that happens at a tab stop.

Main statements: `piece_expandFrom`, what becomes of the piece in front of a text;
`Position.width_past_expandFrom`; and `Layout.tabs_mean_tab_stops`.
-/

namespace OffsideBench

open Token (Kind)

/-- A text with each tab in the indentation of a line replaced by the spaces that lead to the next
multiple of eight. While indentation is read `column?` is the column that it has reached; behind the
indentation of a line there is none, and tabs stay. -/
def expandFrom : (column? : Option Nat) → List Char → List Char
  | _, [] => []
  | _, '\n' :: cs => '\n' :: expandFrom (some 0) cs
  | some column, ' ' :: cs => ' ' :: expandFrom (some (column + 1)) cs
  | some column, '\t' :: cs =>
    List.replicate (8 - column % 8) ' ' ++ expandFrom (some (column + (8 - column % 8))) cs
  | _, c :: cs => c :: expandFrom none cs

/-- A text with the tabs in its indentation replaced by spaces. -/
def expandTabs (source : String) : String := String.ofList (expandFrom (some 0) source.toList)

@[simp] theorem expandFrom_nil (column? : Option Nat) : expandFrom column? [] = [] := by
  cases column? <;> rfl

@[simp] theorem expandFrom_lineFeed (column? : Option Nat) (cs : List Char) :
    expandFrom column? ('\n' :: cs) = '\n' :: expandFrom (some 0) cs := by
  cases column? <;> rfl

theorem expandFrom_space (column : Nat) (cs : List Char) :
    expandFrom (some column) (' ' :: cs) = ' ' :: expandFrom (some (column + 1)) cs :=
  rfl

theorem expandFrom_tab (column : Nat) (cs : List Char) :
    expandFrom (some column) ('\t' :: cs) =
      List.replicate (8 - column % 8) ' ' ++ expandFrom (some (column + (8 - column % 8))) cs :=
  rfl

theorem expandFrom_return (column? : Option Nat) (cs : List Char) :
    expandFrom column? ('\r' :: '\n' :: cs) = '\r' :: '\n' :: expandFrom (some 0) cs := by
  cases column? <;> rfl

/-! ## What is copied -/

section Expand

variable {column? : Option Nat} {c : Char} {cs : List Char}

/-- Behind the indentation every character is copied, and in it those that are no blanks. -/
theorem expandFrom_of_copied (h : column? = none ∨ isIndentBlank c = false) (cs : List Char) :
    expandFrom column? (c :: cs) = c :: expandFrom (if c = '\n' then some 0 else none) cs := by
  by_cases hn : c = '\n'
  · subst hn
    rw [expandFrom_lineFeed, if_pos rfl]
  · rw [if_neg hn, expandFrom.eq_5 _ _ _ hn]
    · rintro w rfl rfl
      simp [isIndentBlank] at h
    · rintro w rfl rfl
      simp [isIndentBlank] at h

theorem copied_or_blank (column? : Option Nat) (c : Char) :
    (column? = none ∨ isIndentBlank c = false) ∨
      ∃ w, column? = some w ∧ (c = ' ' ∨ c = '\t') := by
  cases column? with
  | none => exact .inl (.inl rfl)
  | some w =>
    by_cases hc : isIndentBlank c = true
    · refine .inr ⟨w, rfl, ?_⟩
      simpa [isIndentBlank] using hc
    · exact .inl (.inr (by simpa using hc))

theorem expandFrom_of_head (h : ∀ c ∈ cs.head?, isIndentBlank c = false) (column? : Option Nat) :
    expandFrom column? cs = expandFrom none cs := by
  cases cs with
  | nil => rw [expandFrom_nil, expandFrom_nil]
  | cons c cs => rw [expandFrom_of_copied (.inr (h c rfl)), expandFrom_of_copied (.inl rfl)]

theorem expandFrom_of_not_mem (h : '\n' ∉ cs) : expandFrom none cs = cs := by
  induction cs with
  | nil => rfl
  | cons c cs ih =>
    obtain ⟨hc, hcs⟩ := not_or.1 (mt List.mem_cons.2 h)
    rw [expandFrom_of_copied (.inl rfl), if_neg (Ne.symm hc), ih hcs]

theorem head?_expandFrom_none (cs : List Char) : (expandFrom none cs).head? = cs.head? := by
  cases cs with
  | nil => rw [expandFrom_nil]
  | cons c cs => rw [expandFrom_of_copied (.inl rfl), List.head?_cons, List.head?_cons]

/-- In front of what is no blank of the indentation a text can be cut in two. -/
theorem expandFrom_append (column? : Option Nat) (as : List Char) {bs : List Char}
    (h : ∀ c ∈ bs.head?, isIndentBlank c = false) :
    expandFrom column? (as ++ bs) = expandFrom column? as ++ expandFrom none bs := by
  induction as generalizing column? with
  | nil =>
    rw [List.nil_append, expandFrom_of_head h, expandFrom_nil, List.nil_append]
  | cons a as ih =>
    rcases copied_or_blank column? a with hcopied | ⟨w, rfl, rfl | rfl⟩
    · rw [List.cons_append, expandFrom_of_copied hcopied, expandFrom_of_copied hcopied, ih,
        List.cons_append]
    · rw [List.cons_append, expandFrom_space, expandFrom_space, ih, List.cons_append]
    · rw [List.cons_append, expandFrom_tab, expandFrom_tab, ih, List.append_assoc]

/-- A row keeps what stands behind its indentation, and its line break. -/
theorem EndsRow.expandFrom_append {row br : List Char} (h : EndsRow row br) (rest : List Char) :
    expandFrom none (row ++ (br ++ rest)) = row ++ (br ++ expandFrom (some 0) rest) := by
  have hhead : ∀ x ∈ (br ++ rest).head?, isIndentBlank x = false := by
    intro x hx
    rcases eq_of_isBreak (h.isBreak_head rest x hx) with rfl | rfl
    · rfl
    · rfl
  have hbr : expandFrom none (br ++ rest) = br ++ expandFrom (some 0) rest := by
    cases h with
    | lf => exact expandFrom_lineFeed none rest
    | crlf => exact expandFrom_return none rest
  rw [OffsideBench.expandFrom_append none row hhead, expandFrom_of_not_mem h.not_mem, hbr]

/-! ## Pieces -/

theorem isIndentBlank_of_mem_spaces {n : Nat} : ∀ x ∈ List.replicate n ' ', isIndentBlank x := by
  intro x hx
  rw [List.eq_of_mem_replicate hx]
  rfl

theorem breakRun_eq_nil (hc : ¬ (c = '\n' ∨ isIndentBlank c = true))
    (hcr : c = '\r' → cs.head? ≠ some '\n') : Piece.breakRun (c :: cs) = [] := by
  unfold Piece.breakRun
  split
  · rename_i h
    obtain ⟨rfl, rfl⟩ := List.cons.inj h
    exact absurd rfl (hcr rfl)
  · rename_i h
    obtain ⟨rfl, rfl⟩ := List.cons.inj h
    exact if_neg hc
  · rfl

/-- Line breaks take the same indentation along, in spaces. -/
theorem breakRun_expandFrom (column? : Option Nat) (cs : List Char) :
    Piece.breakRun (expandFrom column? cs) = expandFrom column? (Piece.breakRun cs) := by
  fun_induction Piece.breakRun cs generalizing column? with
  | case1 cs ih =>
    have hbreak (rest : List Char) :
        Piece.breakRun ('\r' :: '\n' :: rest) = '\r' :: '\n' :: Piece.breakRun rest :=
      Dialect.breakRun_lineBreak (.inr rfl) rest
    rw [expandFrom_return, expandFrom_return, hbreak, ih]
  | case2 c cs _ hc ih =>
    rcases copied_or_blank column? c with hcopied | ⟨w, rfl, rfl | rfl⟩
    · rw [expandFrom_of_copied hcopied, expandFrom_of_copied hcopied, Dialect.breakRun_cons hc, ih]
    · rw [expandFrom_space, expandFrom_space, Dialect.breakRun_cons (.inr rfl), ih]
    · rw [expandFrom_tab, expandFrom_tab, Dialect.breakRun_blanks isIndentBlank_of_mem_spaces, ih]
  | case3 c cs hcr hc =>
    obtain ⟨hn, hblank⟩ := not_or.1 hc
    rw [Bool.not_eq_true] at hblank
    rw [expandFrom_of_copied (.inr hblank), if_neg hn, breakRun_eq_nil hc, expandFrom_nil]
    · -- a carriage return that stood alone still does
      rintro rfl hhead
      rw [head?_expandFrom_none] at hhead
      obtain ⟨ds, rfl⟩ := List.head?_eq_some_iff.1 hhead
      exact hcr ds rfl rfl
  | case4 =>
    rw [expandFrom_nil]
    rfl

theorem newline_expandFrom (text cs : List Char) :
    Piece.newline text (expandFrom (some 0) cs) =
      ⟨.token .newline, text ++ expandFrom (some 0) (Piece.breakRun cs),
        expandFrom none (Piece.newline text cs).rest⟩ := by
  have hcs := expandFrom_append (some 0) (Piece.breakRun cs) (Piece.newline_rest text cs)
  have hrun := Piece.breakRun_append_drop cs
  rw [show (Piece.newline text cs).rest = cs.drop (Piece.breakRun cs).length from rfl] at hcs ⊢
  rw [hrun] at hcs
  rw [Piece.newline, breakRun_expandFrom, hcs, List.drop_left]

/-- The piece in front of a text that is copied has the same role. What it is made of and what
stands behind it are expanded as well. -/
theorem piece_expandFrom (c : Char) (cs : List Char) :
    Dialect.dented.piece c (expandFrom (if c = '\n' then some 0 else none) cs) =
      ⟨(Dialect.dented.piece c cs).role, expandFrom none (Dialect.dented.piece c cs).text,
        expandFrom none (Dialect.dented.piece c cs).rest⟩ := by
  rcases exists_endsRow (c :: cs) with hrow | ⟨row, br, rest, hrow, hcs⟩
  · -- without a line break everything is copied
    have hcs : '\n' ∉ cs := fun hm => hrow (List.mem_cons_of_mem _ hm)
    have hn : c ≠ '\n' := fun e => hrow (e ▸ List.mem_cons_self)
    rw [← Dialect.dented.piece_text_append_rest c cs, List.mem_append, not_or] at hrow
    rw [if_neg hn, expandFrom_of_not_mem hcs, expandFrom_of_not_mem hrow.1,
      expandFrom_of_not_mem hrow.2]
  · cases row with
    | nil =>
      cases hrow with
      | lf =>
        obtain ⟨rfl, rfl⟩ : c = '\n' ∧ cs = rest := by simpa using hcs
        have hpiece : ∀ ds, Dialect.dented.piece '\n' ds = .newline ['\n'] ds := fun ds => rfl
        rw [if_pos rfl, hpiece, hpiece, newline_expandFrom, Piece.newline]
        simp only [List.cons_append, List.nil_append, expandFrom_lineFeed]
      | crlf =>
        obtain ⟨rfl, rfl⟩ : c = '\r' ∧ cs = '\n' :: rest := by simpa using hcs
        have hpiece : ∀ ds, Dialect.dented.piece '\r' ('\n' :: ds) =
            .newline ['\r', '\n'] ds := fun ds => rfl
        rw [if_neg (by decide), expandFrom_lineFeed, hpiece, hpiece, newline_expandFrom,
          Piece.newline]
        simp only [List.cons_append, List.nil_append, expandFrom_return]
    | cons d row =>
      -- what stands behind the row does not change the piece in front of it
      obtain ⟨rfl, rfl⟩ : c = d ∧ cs = row ++ (br ++ rest) := by simpa using hcs
      have hn : c ≠ '\n' := fun e => hrow.not_mem (e ▸ List.mem_cons_self)
      have hends : EndsRow row br := EndsRow.of_append (show EndsRow ([c] ++ row) br from hrow)
      have hpiece := fun after =>
        Dialect.piece_append hn (hrow.isBreak_head after) (hrow.head?_append_ne after)
      rw [← Dialect.dented.piece_text_append_rest c row] at hrow
      have htext : '\n' ∉ (Dialect.dented.piece c row).text := fun hm =>
        hrow.not_mem (List.mem_append_left _ hm)
      rw [if_neg hn, hends.expandFrom_append, hpiece, hpiece, expandFrom_of_not_mem htext,
        hrow.of_append.expandFrom_append]

/-! ## Widths -/

theorem Position.width_past_spaces (p : Position) (n : Nat) :
    (p.past (List.replicate n ' ')).width = p.width + UInt32.ofNat n := by
  induction n with
  | zero => simp
  | succ n ih =>
    rw [List.replicate_succ', past_append, UInt32.ofNat_add, ← UInt32.add_assoc, ← ih]
    rfl

/-- The spaces that a tab stands for lead as far as the tab. -/
theorem widen_tab (w : Nat) : widen (UInt32.ofNat w) '\t' = UInt32.ofNat (w + (8 - w % 8)) := by
  have hstop : (w / 8 + 1) * 8 = w + (8 - w % 8) := by omega
  rw [widen_ofNat, if_pos rfl, hstop]

/-- A text and its expansion lead to the same column of a line. -/
theorem Position.width_past_expandFrom (column? : Option Nat) (cs : List Char) {p p' : Position}
    (h : p'.width = p.width) (hcolumn : ∀ w, column? = some w → p.width = UInt32.ofNat w) :
    (p'.past (expandFrom column? cs)).width = (p.past cs).width := by
  induction cs generalizing column? p p' with
  | nil =>
    rw [expandFrom_nil]
    exact h
  | cons c cs ih =>
    rcases copied_or_blank column? c with hcopied | ⟨w, rfl, rfl | rfl⟩
    · rw [expandFrom_of_copied hcopied, past_cons, past_cons]
      refine ih _ (width_next h c) ?_
      intro w hw
      by_cases hn : c = '\n'
      · subst hn
        rw [if_pos rfl] at hw
        rw [← Option.some.inj hw]
        rfl
      · rw [if_neg hn] at hw
        cases hw
    · rw [expandFrom_space, past_cons, past_cons]
      refine ih _ (width_next h ' ') ?_
      rintro w' ⟨⟩
      show widen p.width ' ' = _
      rw [hcolumn w rfl, UInt32.ofNat_add]
      rfl
    · have hw : (p.next '\t').width = UInt32.ofNat (w + (8 - w % 8)) := by
        rw [← widen_tab, ← hcolumn w rfl]
        rfl
      rw [expandFrom_tab, past_append, past_cons]
      refine ih _ ?_ ?_
      · rw [width_past_spaces, hw, h, hcolumn w rfl, UInt32.ofNat_add]
      · rintro w' ⟨⟩
        exact hw

/-- Behind the indentation of its first line a text is cut as its expansion is. -/
theorem cutsAlike_expandFrom : Dialect.dented.CutsAlike fun cs cs' => cs' = expandFrom none cs where
  nil := by
    rintro _ rfl
    rw [expandFrom_nil]
  cons := by
    rintro c cs _ rfl
    have hpiece := piece_expandFrom c cs
    refine ⟨c, _, expandFrom_of_copied (.inl rfl) cs, ?_, ?_⟩
    · rw [hpiece]
      refine ⟨rfl, ?_, fun hq => Position.width_past_expandFrom none _ hq nofun⟩
      intro k hk hn
      exact expandFrom_of_not_mem ((Dialect.dented.spells_piece c cs hk).not_mem_newline hn)
    · rw [hpiece]

end Expand

theorem isIndentBlank_of_mem_expandFrom (column? : Option Nat) {cs : List Char}
    (h : ∀ c ∈ cs, isIndentBlank c = true) :
    ∀ c ∈ expandFrom column? cs, isIndentBlank c = true := by
  induction cs generalizing column? with
  | nil =>
    rw [expandFrom_nil]
    exact h
  | cons c cs ih =>
    obtain ⟨hc, hcs⟩ := List.forall_mem_cons.1 h
    rcases copied_or_blank column? c with hcopied | ⟨w, rfl, rfl | rfl⟩
    · have hn : c ≠ '\n' := fun e => absurd (e ▸ hc) (by decide)
      rw [expandFrom_of_copied hcopied, if_neg hn]
      exact List.forall_mem_cons.2 ⟨hc, ih _ hcs⟩
    · rw [expandFrom_space]
      exact List.forall_mem_cons.2 ⟨hc, ih _ hcs⟩
    · rw [expandFrom_tab]
      exact List.forall_mem_append.2 ⟨isIndentBlank_of_mem_spaces, ih _ hcs⟩

/-- A text and its expansion have alike lexemes. The indentation of the first line belongs to no
lexeme; what follows is cut alike. -/
theorem itemsAlike_expandTabs (source : String) :
    Scan.ItemsAlike source (expandTabs source) (Scan.ofText .dented source).items
      (Scan.ofText .dented (expandTabs source)).items := by
  have htext := List.takeWhile_append_dropWhile (p := isIndentBlank) (l := source.toList)
  have hhead := List.head?_dropWhile_not isIndentBlank source.toList
  have hblanks : ∀ c ∈ source.toList.takeWhile isIndentBlank, isIndentBlank c = true :=
    fun c hc => List.mem_takeWhile_imp hc
  generalize source.toList.takeWhile isIndentBlank = blanks at *
  generalize source.toList.dropWhile isIndentBlank = core at *
  have hcore : ∀ c ∈ core.head?, isIndentBlank c = false := by
    intro c hc
    rw [hc] at hhead
    exact hhead
  have hexpand : expandFrom (some 0) blanks ++ expandFrom none core =
      (expandTabs source).toList := by
    rw [expandTabs, String.toList_ofList, ← htext, expandFrom_append (some 0) blanks hcore]
  have hgap := fun c hc => Scan.isBlank_of_isIndentBlank (hblanks c hc) .dented
  have hgap' := fun c hc => Scan.isBlank_of_isIndentBlank
    (isIndentBlank_of_mem_expandFrom (some 0) hblanks c hc) .dented
  rw [Scan.ofText, Scan.ofText, ← hexpand, ← htext, Scan.ofChars_blanks hgap,
    Scan.ofChars_blanks hgap']
  refine cutsAlike_expandFrom.itemsAlike rfl htext hexpand ?_
  refine Position.width_past_expandFrom (some 0) blanks rfl ?_
  rintro w ⟨⟩
  rfl

/-- **Tabs mean tab stops of eight.** Each tab in the indentation of a line is replaced by the
spaces that lead to the next multiple of eight. Then the stream with structure, up to the end or to
the first fault, has the same kinds and the same texts of content tokens, and ends in the same way:
with the end of the text, or with the same fault but for its place, which keeps the width. So does
the making of its braced text, which is the same if there is one. -/
theorem Layout.tabs_mean_tab_stops (source : String) :
    (Variant.dented.drain (expandTabs source)).said (expandTabs source) =
        (Variant.dented.drain source).said source ∧
      (Variant.braced.prepare (expandTabs source)).mapError LexError.unplaced =
        (Variant.braced.prepare source).mapError LexError.unplaced := by
  have hfinish : (Scan.ofText .dented (expandTabs source)).finish.width =
      (Scan.ofText .dented source).finish.width := by
    rw [Scan.ofText, Scan.ofText, Scan.finish_ofChars, Scan.finish_ofChars, expandTabs,
      String.toList_ofList]
    refine Position.width_past_expandFrom (some 0) source.toList rfl ?_
    rintro w ⟨⟩
    rfl
  have hdented := Variant.said_drain_dented (itemsAlike_expandTabs source) hfinish
  exact ⟨hdented, Variant.prepare_braced_of_said hdented⟩

example : expandTabs " \ta\tb\n\n \t \t#\r\n\tc" =
    "        a\tb\n\n                #\r\n        c" := by decide +kernel

end OffsideBench

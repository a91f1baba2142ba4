import Mathlib.Algebra.Group.Nat.Defs
import OffsideBench.Proofs.Layout.Sketch
import OffsideBench.Proofs.LongestMatch

/-!
# Wide lines

A width is a word of 32 bits, and a line may have more columns than such a word can count. Its width
is then the number of columns wrapped around, so a line that is moved by 2^32 columns is read as if
it had not been moved. No character takes more than the eight columns of a tab, so texts of fewer
than 2^29 characters have no lines that are as wide as that.

To say what wrapping around means, widths are calculated a second time with a check of each step:
`lineWidth?` has no result where a number on the way is too large.

Main statements: `Layout.widths_wrap_around`, what is measured on a line of code; and
`Layout.moved_lines_read_alike`, how lines are read that are moved by 2^32 columns.
-/

namespace OffsideBench

open Token (Kind)

/-! ## Widths with each step checked -/

/-- A number, if a width can hold it. -/
def width? (n : Nat) : Option UInt32 := if n < UInt32.size then some (.ofNat n) else none

/-- The width `n` columns behind `w`, taken one by one. -/
def advance? (w : UInt32) : Nat → Option UInt32
  | 0 => some w
  | n + 1 => do advance? (← width? (w.toNat + 1)) n

/-- `widen` with each step checked. -/
def widen? (w : UInt32) (c : Char) : Option UInt32 :=
  if c = '\t' then do
    let stops ← width? (w.toNat / tabWidth.toNat + 1)
    width? (stops.toNat * tabWidth.toNat)
  else
    advance? w c.utf8Size

/-- `lineWidth` with each step checked. -/
def lineWidth? (cs : List Char) : Option UInt32 := cs.foldlM widen? 0

section Checked

variable {n w : Nat}

theorem width?_of_lt (h : n < UInt32.size) : width? n = some (.ofNat n) := if_pos h

theorem width?_of_le (h : UInt32.size ≤ n) : width? n = none := if_neg (Nat.not_lt.2 h)

/-- Columns taken one by one overflow just when all of them do. -/
theorem advance?_ofNat (h : w < UInt32.size) (n : Nat) : advance? (.ofNat w) n = width? (w + n) := by
  induction n generalizing w with
  | zero => exact (width?_of_lt h).symm
  | succ n ih =>
    have hsum : w + 1 + n = w + (n + 1) := by omega
    rw [advance?, UInt32.toNat_ofNat_of_lt' h, Option.bind_eq_bind]
    rcases Nat.lt_or_ge (w + 1) UInt32.size with hlt | hge
    · rw [width?_of_lt hlt, Option.bind_some, ih hlt, hsum]
    · rw [width?_of_le hge, width?_of_le (by omega), Option.bind_none]

theorem widen?_ofNat (h : w < UInt32.size) (c : Char) :
    widen? (.ofNat w) c = width? (if c = '\t' then (w / 8 + 1) * 8 else w + c.utf8Size) := by
  by_cases hc : c = '\t'
  · have hstops : w / 8 + 1 < UInt32.size := by
      have hsize : UInt32.size = 4294967296 := rfl
      omega
    have htab : tabWidth.toNat = 8 := rfl
    rw [widen?, if_pos hc, if_pos hc, UInt32.toNat_ofNat_of_lt' h, htab, width?_of_lt hstops,
      Option.bind_eq_bind, Option.bind_some, UInt32.toNat_ofNat_of_lt' hstops]
  · rw [widen?, if_neg hc, if_neg hc, advance?_ofNat h]

/-- The checked calculation gives the number of columns, as long as a width can hold it. -/
theorem lineWidth?_eq (cs : List Char) : lineWidth? cs = width? (columns cs) := by
  induction cs using List.reverseRecOn with
  | nil => rfl
  | append_singleton cs c ih =>
    have hstep : lineWidth? (cs ++ [c]) = (lineWidth? cs).bind (widen? · c) := by
      rw [lineWidth?, List.foldlM_append]
      simp only [List.foldlM_cons, List.foldlM_nil, bind_pure]
      rfl
    rw [hstep, ih]
    rcases Nat.lt_or_ge (columns cs) UInt32.size with hlt | hge
    · rw [width?_of_lt hlt, Option.bind_some, widen?_ofNat hlt, columns_concat]
    · rw [width?_of_le hge, width?_of_le (hge.trans (columns_lt_concat cs c).le), Option.bind_none]

end Checked

/-- No character takes more columns than a tab may. -/
theorem columns_le (cs : List Char) : columns cs ≤ 8 * cs.length := by
  induction cs using List.reverseRecOn with
  | nil => exact Nat.le_refl _
  | append_singleton cs c ih =>
    have hc := c.utf8Size_le_four
    rw [columns_concat, List.length_append, List.length_singleton]
    split <;> omega

/-! ## Where lines are measured -/

/-- The text in front of an offset on its line. -/
def lineUpTo (source : String) (offset : Nat) : List Char :=
  ((Token.slice? source 0 offset).getD "").toList.rtakeWhile (· ≠ '\n')

/-- The places at which a line of code may be measured: in front of its first content if it is the
first one, and else behind the line break in front of it. -/
inductive IsMeasured (source : String) : Position → Prop where
  /-- In front of content. -/
  | content {x : Lexeme} (hx : .ok x ∈ (Scan.ofText .dented source).items)
      (hk : x.kind.isContent = true) : IsMeasured source x.start
  /-- Behind a line break and the blanks that are read along with it. -/
  | newline {n : Lexeme} (hn : .ok n ∈ (Scan.ofText .dented source).items)
      (hk : n.kind = .newline) : IsMeasured source n.stop

theorem lineUpTo_past {source : String} {front rest : List Char}
    (h : front ++ rest = source.toList) :
    lineUpTo source (Position.origin.past front).offset = front.rtakeWhile (· ≠ '\n') := by
  have hs : front ++ [] ++ rest = source.toList := by rw [List.append_nil, h]
  exact congrArg (List.rtakeWhile (· ≠ '\n')) (Lexeme.before_behind .newline hs)

namespace IsMeasured

variable {source : String} {p : Position}

/-- A line is measured behind some front of the text. -/
theorem exists_front (h : IsMeasured source p) :
    ∃ front rest, front ++ rest = source.toList ∧ p = Position.origin.past front := by
  have hmem : ∀ {x : Lexeme}, .ok x ∈ (Scan.ofText .dented source).items →
      ∃ before text after, source.toList = before ++ text ++ after ∧
        x = .behind before x.kind text := by
    intro x hx
    obtain ⟨before, text, after, hs, -, hx⟩ := @Scan.mem_items _ [] _ _ hx
    exact ⟨before, text, after, hs, hx⟩
  cases h with
  | content hx =>
    obtain ⟨before, text, after, hs, hx⟩ := hmem hx
    exact ⟨before, text ++ after, by rw [hs, List.append_assoc], congrArg Lexeme.start hx⟩
  | newline hn =>
    obtain ⟨before, text, after, hs, hn⟩ := hmem hn
    exact ⟨before ++ text, after, hs.symm, congrArg Lexeme.stop hn⟩

theorem width_eq (h : IsMeasured source p) : p.width = lineWidth (lineUpTo source p.offset) := by
  obtain ⟨front, rest, hs, rfl⟩ := h.exists_front
  rw [lineUpTo_past hs, Position.width_past]

theorem length_lineUpTo_le (h : IsMeasured source p) :
    (lineUpTo source p.offset).length ≤ source.length := by
  obtain ⟨front, rest, hs, rfl⟩ := h.exists_front
  have hlen := congrArg List.length hs
  have hline := (List.rtakeWhile_suffix (· ≠ '\n') front).length_le
  rw [List.length_append, String.length_toList] at hlen
  rw [lineUpTo_past hs]
  omega

end IsMeasured

namespace Layout

/-- **Widths wrap around.** Where a line of code is measured, its width is the number of columns in
front of that place, wrapped around. No step of the calculation overflows just when there are fewer
than 2^32 columns, as there are in each text of fewer than 2^29 characters. Then the width is exact,
and the widths of two lines compare as their columns do. -/
theorem widths_wrap_around {source : String} {p q : Position} (hp : IsMeasured source p)
    (hq : IsMeasured source q) :
    let line := fun r : Position => lineUpTo source r.offset
    p.width.toNat = columns (line p) % UInt32.size ∧
    lineWidth? (line p) = (if columns (line p) < UInt32.size then some p.width else none) ∧
    (source.length < 2 ^ 29 → columns (line p) < UInt32.size) ∧
    (columns (line p) < UInt32.size → columns (line q) < UInt32.size →
      (p.width < q.width ↔ columns (line p) < columns (line q))) := by
  intro line
  have hwidth : p.width = .ofNat (columns (line p)) := by rw [hp.width_eq, lineWidth_eq_ofNat]
  refine ⟨?wraps, ?checked, ?short, ?compare⟩
  case wraps => rw [hwidth, UInt32.toNat_ofNat']
  case checked => rw [lineWidth?_eq, hwidth, width?]
  case short =>
    intro hlen
    have hsize : UInt32.size = 8 * 2 ^ 29 := rfl
    have hline : (line p).length ≤ source.length := hp.length_lineUpTo_le
    have hle := columns_le (line p)
    omega
  case compare =>
    intro hcp hcq
    rw [UInt32.lt_iff_toNat_lt, hp.width_eq, hq.width_eq, toNat_lineWidth hcp, toNat_lineWidth hcq]

/-- The statement of `Layout.widths_wrap_around` for a first line, and a second one that is indented
by a tab behind a space. -/
theorem widths_wrap_around_tab_behind_space :
    lineWidth? (lineUpTo "a\n \tb" 4) = some 8 ∧
      (⟨0, 0, 0⟩ : Position).width < (⟨4, 2, 8⟩ : Position).width := by
  have hitems : (Scan.ofText .dented "a\n \tb").items =
      [.ok ⟨.ident, ⟨0, 0, 0⟩, ⟨1, 0, 1⟩⟩, .ok ⟨.newline, ⟨1, 0, 1⟩, ⟨4, 2, 8⟩⟩,
        .ok ⟨.ident, ⟨4, 2, 8⟩, ⟨5, 2, 9⟩⟩] := by decide +kernel
  have hfirst : IsMeasured "a\n \tb" ⟨0, 0, 0⟩ :=
    @IsMeasured.content _ ⟨.ident, ⟨0, 0, 0⟩, ⟨1, 0, 1⟩⟩ (by simp [hitems]) rfl
  have hsecond : IsMeasured "a\n \tb" ⟨4, 2, 8⟩ :=
    @IsMeasured.newline _ ⟨.newline, ⟨1, 0, 1⟩, ⟨4, 2, 8⟩⟩ (by simp [hitems]) rfl
  have hlength : "a\n \tb".length < 2 ^ 29 := by decide
  obtain ⟨-, hchecked, hshort, -⟩ := widths_wrap_around hsecond hfirst
  obtain ⟨-, -, hshort', hcompare⟩ := widths_wrap_around hfirst hsecond
  rw [if_pos (hshort hlength)] at hchecked
  exact ⟨hchecked, (hcompare (hshort' hlength) (hshort hlength)).2 (by decide +kernel)⟩

end Layout

/-! ## Lines moved by 2^32 columns -/

/-- Rows hold the same behind blanks of the same widths. -/
structure Code.Alike (c c' : Code) : Prop where
  width : c'.width = c.width
  column : c'.column = c.column
  stretches : c'.stretches = c.stretches

namespace Code

theorem Alike.refl (c : Code) : Alike c c := ⟨rfl, rfl, rfl⟩

theorem Alike.tokens {c c' : Code} (h : Alike c c') : c'.tokens = c.tokens :=
  congrArg (List.filterMap Stretch.reading) h.stretches

theorem Alike.clean_iff {c c' : Code} (h : Alike c c') : c'.Clean ↔ c.Clean := by
  rw [Clean, Clean, h.stretches]

theorem clean_iff_of_alike {cs cs' : List Code} (h : List.Forall₂ Alike cs cs') :
    (∀ c ∈ cs', c.Clean) ↔ ∀ c ∈ cs, c.Clean := by
  induction h with
  | nil => rfl
  | cons hc _ ih => rw [List.forall_mem_cons, List.forall_mem_cons, hc.clean_iff, ih]

variable {blanks : List Char}

/-- Blanks that lead back to the first column do not change the widths of a row. -/
theorem alike_blanks (hb : ∀ c ∈ blanks, isIndentBlank c = true) (hw : lineWidth blanks = 0)
    (c : Code) : Alike c ⟨blanks ++ c.lead, c.stretches⟩ := by
  have happend : ∀ cs, lineWidth (blanks ++ cs) = lineWidth cs := by
    intro cs
    rw [lineWidth, List.foldl_append, ← lineWidth, hw]
    rfl
  refine ⟨?_, happend c.lead, rfl⟩
  rw [width, width, List.takeWhile_append_of_pos hb, happend]

end Code

theorem EndsRow.blanks_append {row br blanks : List Char} (h : EndsRow row br)
    (hb : ∀ c ∈ blanks, isIndentBlank c = true) : EndsRow (blanks ++ row) br := by
  have hn := not_mem_blanks_append hb h.not_mem
  cases h with
  | crlf => exact .crlf hn
  | lf _ hcr =>
    refine .lf hn ?_
    rw [List.getLast?_append]
    cases hl : row.getLast? with
    | some c => exact fun hc => hcr (hl.trans hc)
    | none => exact fun hc => absurd (hb _ (List.mem_of_getLast? hc)) (by decide)

/-- Of the rows of a text, further blanks move only the first. -/
theorem codes_blanks {blanks : List Char} (hb : ∀ c ∈ blanks, isIndentBlank c = true)
    (hw : lineWidth blanks = 0) (cs : List Char) :
    List.Forall₂ Code.Alike (codes cs) (codes (blanks ++ cs)) := by
  have hrow : ∀ row, List.Forall₂ Code.Alike (Code.ofRow? row).toList
      (Code.ofRow? (blanks ++ row)).toList := by
    intro row
    rw [Code.ofRow?_blanks hb]
    cases Code.ofRow? row with
    | none => exact .nil
    | some c => exact .cons (Code.alike_blanks hb hw c) .nil
  rcases exists_endsRow cs with hn | ⟨row, br, rest, hends, rfl⟩
  · rw [codes_of_not_mem hn, codes_of_not_mem (not_mem_blanks_append hb hn)]
    exact hrow cs
  · rw [hends.codes_append, ← List.append_assoc, (hends.blanks_append hb).codes_append]
    exact List.rel_append (hrow row) (List.forall₂_same.2 fun c _ => .refl c)

namespace Layout

/-- The recursion over rows looks at nothing but their widths and their tokens. -/
theorem sketch_of_alike {cs cs' : List Code} (h : List.Forall₂ Code.Alike cs cs')
    (widths : List UInt32) : sketch widths cs' = sketch widths cs := by
  induction h generalizing widths with
  | nil => rfl
  | cons hc _ ih =>
    rw [sketch, sketch, hc.width, hc.tokens]
    cases marks widths _ with
    | none => rfl
    | some o => exact congrArg (Option.map _) (ih o.2)

theorem sketchText_of_alike {cs cs' : List Code} (h : List.Forall₂ Code.Alike cs cs') :
    sketchText cs' = sketchText cs := by
  cases h with
  | nil => rfl
  | cons hc hcs => rw [sketchText, sketchText, hc.column, hc.tokens, sketch_of_alike hcs]

/-- **A line moved by 2^32 columns is read as if it had not been moved.** Behind whole lines, spaces
and tabs that take a multiple of 2^32 columns are put in. Then the stream with structure says the
same, if it is drained to its end, and otherwise it is not drained to its end with them either. -/
theorem moved_lines_read_alike {s₁ blanks s₂ : String}
    (hs₁ : s₁ = "" ∨ s₁.toList.getLast? = some '\n')
    (hb : ∀ c ∈ blanks.toList, isIndentBlank c = true)
    (hw : columns blanks.toList % UInt32.size = 0) :
    (Variant.dented.drain (s₁ ++ blanks ++ s₂)).readings (s₁ ++ blanks ++ s₂) =
      (Variant.dented.drain (s₁ ++ s₂)).readings (s₁ ++ s₂) := by
  have hwhole : WholeLines s₁.toList := hs₁.imp_left fun e => by rw [e]; rfl
  have hwidth : lineWidth blanks.toList = 0 := by
    refine UInt32.toNat_inj.1 ?_
    rw [lineWidth_eq_ofNat, UInt32.toNat_ofNat']
    exact hw
  have hcodes : List.Forall₂ Code.Alike (codes (s₁ ++ s₂).toList)
      (codes (s₁ ++ blanks ++ s₂).toList) := by
    rw [String.append_assoc, String.toList_append, String.toList_append, String.toList_append,
      hwhole.codes_append, hwhole.codes_append]
    exact List.rel_append (List.forall₂_same.2 fun c _ => .refl c) (codes_blanks hb hwidth _)
  refine Option.ext fun rs => ?_
  rw [Variant.readings_dented_iff, Variant.readings_dented_iff, Code.clean_iff_of_alike hcodes,
    sketchText_of_alike hcodes]

/-- Behind a line with a name, a line that is indented by some blanks is measured behind them. -/
theorem exists_measured_behind_name {blanks : String}
    (hb : ∀ c ∈ blanks.toList, isIndentBlank c = true) :
    ∃ p, IsMeasured ("x\n" ++ blanks ++ "y") p ∧
      lineUpTo ("x\n" ++ blanks ++ "y") p.offset = blanks.toList := by
  have htext : ("x\n" ++ blanks ++ "y").toList = 'x' :: '\n' :: (blanks.toList ++ ['y']) := by
    rw [String.toList_append, String.toList_append]
    rfl
  generalize "x\n" ++ blanks ++ "y" = source at *
  have hname : Dialect.dented.piece 'x' ('\n' :: (blanks.toList ++ ['y'])) =
      ⟨.token .ident, ['x'], '\n' :: (blanks.toList ++ ['y'])⟩ := rfl
  have hrun : Piece.breakRun (blanks.toList ++ ['y']) = blanks.toList := by
    rw [Dialect.breakRun_blanks hb]
    exact List.append_nil _
  have hbreak : (Dialect.dented.piece '\n' (blanks.toList ++ ['y'])).text =
      '\n' :: blanks.toList := by
    show ['\n'] ++ Piece.breakRun (blanks.toList ++ ['y']) = _
    rw [hrun]
    rfl
  have hmem : .ok (.behind ['x'] .newline ('\n' :: blanks.toList)) ∈
      (Scan.ofText .dented source).items := by
    show _ ∈ (Scan.ofChars .dented (Position.origin.past []) source.toList).items
    rw [htext, Scan.items_ofChars_cons, hname]
    refine List.mem_append_right _ ?_
    rw [Scan.items_ofChars_cons, hbreak]
    exact List.mem_append_left _ List.mem_cons_self
  have hfront : ['x'] ++ '\n' :: blanks.toList ++ ['y'] = source.toList := by
    rw [htext]
    rfl
  have hblanks : '\n' ∉ blanks.toList := fun hm => absurd (hb _ hm) (by decide)
  refine ⟨_, .newline hmem rfl, ?_⟩
  exact (lineUpTo_past hfront).trans (rtakeWhile_newline ['x'] hblanks)

/-- A line that is indented by 2^29 tabs is 2^32 columns wide, which no width can hold. It is
measured to be as wide as the line in front of it and opens no block. -/
theorem tabs_wrap_around_to_first_column :
    let blanks := String.ofList (List.replicate (2 ^ 29) '\t')
    let source := "x\n" ++ blanks ++ "y"
    (∃ p, IsMeasured source p ∧ columns (lineUpTo source p.offset) = 2 ^ 32 ∧
      lineWidth? (lineUpTo source p.offset) = none ∧ p.width = 0) ∧
    (Variant.dented.drain source).kinds = [.ident, .newline, .ident, .newline] := by
  intro blanks source
  have hlist : blanks.toList = List.replicate (2 ^ 29) '\t' := String.toList_ofList
  have hb : ∀ c ∈ blanks.toList, isIndentBlank c = true := by
    intro c hc
    rw [hlist] at hc
    rw [List.eq_of_mem_replicate hc]
    rfl
  have hcolumns : columns blanks.toList = 2 ^ 32 :=
    calc columns blanks.toList
        = 8 * 2 ^ 29 := by simp only [hlist, columns_tabs]
      _ = 2 ^ 32 := by decide
  obtain ⟨p, hp, hline⟩ := exists_measured_behind_name hb
  have hwidth := hp.width_eq
  rw [hline, lineWidth_eq_ofNat, hcolumns] at hwidth
  have hshort : (Variant.dented.drain ("x\n" ++ "y")).finish = .ok ⟨.eof, 3, 3⟩ := by
    decide +kernel
  have hread := Drain.readings_of_finish ("x\n" ++ "y") hshort
  rw [← moved_lines_read_alike (.inr (by decide)) hb (by rw [hcolumns]; rfl)] at hread
  refine ⟨⟨p, hp, hline ▸ hcolumns, ?_, hwidth⟩, ?_⟩
  · rw [hline, lineWidth?_eq, hcolumns]
    rfl
  · rw [Variant.kinds_of_readings hread]
    decide +kernel

end Layout

end OffsideBench

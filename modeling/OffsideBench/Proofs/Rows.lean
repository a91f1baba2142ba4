import OffsideBench.Proofs.Draining

/-!
# Rows of a text

A row is what stands between two line breaks of a text. In the dented form no content reaches over a
line break, so a text has the content of its rows, one after the other and each at its place; line
breaks and the blanks next to them only move what follows.

Main statements: `Dialect.piece_append`, what follows the next line break does not change the piece
in front of it; and `Scan.content_row`, the content of a text is that of its first row and that of
the text behind the line break.
-/

namespace OffsideBench

open Token (Kind)

/-! ## Rows and their line breaks -/

/-- The rows of a text: its lines without their line breaks. -/
def rows : List Char → List (List Char)
  | '\r' :: '\n' :: cs => [] :: rows cs
  | c :: cs => if c = '\n' then [] :: rows cs else (rows cs).modifyHead (c :: ·)
  | [] => [[]]

/-- A row of a text is ended by a line break. A carriage return in front of the line feed belongs to
the line break. -/
inductive EndsRow : List Char → List Char → Prop where
  /-- A line feed. -/
  | lf {row : List Char} (h : '\n' ∉ row) (hcr : row.getLast? ≠ some '\r') : EndsRow row ['\n']
  /-- A carriage return and a line feed. -/
  | crlf {row : List Char} (h : '\n' ∉ row) : EndsRow row ['\r', '\n']

namespace EndsRow

variable {row br : List Char}

theorem not_mem (h : EndsRow row br) : '\n' ∉ row := by
  cases h with
  | lf h => exact h
  | crlf h => exact h

/-- A line break that ends a row ends each last part of it. -/
theorem of_append {front : List Char} (h : EndsRow (front ++ row) br) : EndsRow row br := by
  have hrow : '\n' ∉ row := fun hm => h.not_mem (List.mem_append_right _ hm)
  cases h with
  | crlf => exact .crlf hrow
  | lf _ hcr =>
    refine .lf hrow fun hl => hcr ?_
    rw [List.getLast?_append, hl]
    rfl

/-- A line break ends the empty row. -/
theorem nil (hbr : br = ['\n'] ∨ br = ['\r', '\n']) : EndsRow [] br := by
  rcases hbr with rfl | rfl
  · exact .lf (by simp) (by simp)
  · exact .crlf (by simp)

/-- A line break that ends a row ends it with a further part that stays on the row. -/
theorem append {trail : List Char} (h : EndsRow row br) (ht : ∀ c ∈ trail, isBreak c = false) :
    EndsRow (row ++ trail) br := by
  have hn : '\n' ∉ row ++ trail := by
    rw [List.mem_append]
    exact not_or.2 ⟨h.not_mem, fun hm => absurd (ht _ hm) (by decide)⟩
  cases h with
  | crlf => exact .crlf hn
  | lf _ hcr =>
    refine .lf hn ?_
    rw [List.getLast?_append]
    cases hl : trail.getLast? with
    | none => exact hcr
    | some c =>
      intro hc
      obtain rfl : c = '\r' := Option.some.inj hc
      exact absurd (ht _ (List.mem_of_getLast? hl)) (by decide)

/-- A line break begins with a character of line breaks. -/
theorem isBreak_head (h : EndsRow row br) (rest : List Char) :
    ∀ x ∈ (br ++ rest).head?, isBreak x = true := by
  intro x hx
  cases h with
  | lf => cases hx; rfl
  | crlf => cases hx; rfl

/-- No carriage return in a row is a part of the line break behind it. -/
theorem head?_append_ne {c : Char} {cs : List Char} (h : EndsRow (c :: cs) br) (rest : List Char) :
    c = '\r' → (cs ++ (br ++ rest)).head? ≠ some '\n' := by
  rintro rfl hhead
  have hcs : '\n' ∉ cs := fun hm => h.not_mem (List.mem_cons_of_mem _ hm)
  cases cs with
  | nil =>
    cases h with
    | lf _ hcr => exact hcr rfl
    | crlf => cases hhead
  | cons d cs =>
    cases hhead
    exact hcs List.mem_cons_self

end EndsRow

theorem rows_cons {c : Char} {cs : List Char} (hc : c ≠ '\n')
    (h : c = '\r' → cs.head? ≠ some '\n') : rows (c :: cs) = (rows cs).modifyHead (c :: ·) := by
  cases cs with
  | nil => simp [rows, hc]
  | cons d ds =>
    by_cases hr : c = '\r' ∧ d = '\n'
    · obtain ⟨rfl, rfl⟩ := hr
      exact absurd rfl (h rfl)
    · rw [rows]
      · exact if_neg hc
      · rintro ds' rfl hd
        exact hr ⟨rfl, (List.cons.inj hd).1⟩

/-- A text without a line break is a row. -/
theorem rows_of_not_mem {cs : List Char} (h : '\n' ∉ cs) : rows cs = [cs] := by
  induction cs with
  | nil => rfl
  | cons c cs ih =>
    have hcs : '\n' ∉ cs := fun hm => h (List.mem_cons_of_mem _ hm)
    rw [rows_cons (fun e => h (e ▸ List.mem_cons_self)), ih hcs]
    · rfl
    · rintro - hd
      exact hcs (List.mem_of_head? hd)

/-- The first row of a text, and the rows behind its line break. -/
theorem EndsRow.rows_append {row br : List Char} (h : EndsRow row br) (rest : List Char) :
    rows (row ++ (br ++ rest)) = row :: rows rest := by
  induction row with
  | nil => cases h <;> rfl
  | cons c row ih =>
    have hc : c ≠ '\n' := fun e => h.not_mem (e ▸ List.mem_cons_self)
    rw [List.cons_append, rows_cons hc (h.head?_append_ne rest),
      ih (EndsRow.of_append (show EndsRow ([c] ++ row) br from h))]
    rfl

/-- A text is one row, or a row with a line break and what follows. -/
theorem exists_endsRow (cs : List Char) :
    '\n' ∉ cs ∨ ∃ row br rest, EndsRow row br ∧ cs = row ++ (br ++ rest) := by
  by_cases hn : '\n' ∈ cs
  · obtain ⟨row, rest, rfl, hrow⟩ := List.eq_append_cons_of_mem hn
    refine .inr ?_
    by_cases hcr : row.getLast? = some '\r'
    · obtain ⟨row', rfl⟩ := List.getLast?_eq_some_iff.1 hcr
      refine ⟨row', ['\r', '\n'], rest, .crlf fun hm => hrow (List.mem_append_left _ hm), ?_⟩
      simp
    · exact ⟨row, ['\n'], rest, .lf hrow hcr, rfl⟩
  · exact .inl hn

/-- Induction on the rows of a text. -/
@[elab_as_elim]
theorem rowInduction {motive : List Char → Prop} (last : ∀ cs, '\n' ∉ cs → motive cs)
    (row : ∀ row br rest, EndsRow row br → motive rest → motive (row ++ (br ++ rest)))
    (cs : List Char) : motive cs := by
  induction hlen : cs.length using Nat.strongRecOn generalizing cs with
  | ind n ih =>
    rcases exists_endsRow cs with h | ⟨r, br, rest, h, rfl⟩
    · exact last cs h
    · refine row r br rest h (ih rest.length ?_ rest rfl)
      rw [← hlen, List.length_append, List.length_append]
      cases h <;> simp only [List.length_cons, List.length_nil] <;> omega

/-- A text is made of whole lines when it is empty or ends in a line feed. -/
def WholeLines (cs : List Char) : Prop := cs = [] ∨ cs.getLast? = some '\n'

/-- The last part of whole lines ends as they do. -/
theorem WholeLines.of_append {front rest : List Char} (h : WholeLines (front ++ rest)) :
    WholeLines rest := by
  rcases h with h | h
  · exact .inl (List.append_eq_nil_iff.1 h).2
  · cases rest with
    | nil => exact .inl rfl
    | cons c rest =>
      refine .inr ?_
      rw [List.getLast?_append, List.getLast?_cons, Option.some_or] at h
      rw [List.getLast?_cons]
      exact h

/-- A row with its line break is a whole line. -/
theorem EndsRow.wholeLines {row br rest : List Char} (h : EndsRow row br)
    (hrest : WholeLines rest) : WholeLines (row ++ (br ++ rest)) := by
  have hbr : br.getLast? = some '\n' := by cases h <;> rfl
  refine .inr ?_
  rw [List.getLast?_append, List.getLast?_append, hbr]
  rcases hrest with rfl | hrest
  · rfl
  · rw [hrest]
    rfl

/-- Whatever ends in a row with its line break is made of whole lines. -/
theorem EndsRow.wholeLines_append {row br : List Char} (h : EndsRow row br) (front : List Char) :
    WholeLines (front ++ (row ++ br)) := by
  refine .inr ?_
  cases h <;> simp

/-- Whole lines without a line feed are empty. -/
theorem WholeLines.eq_nil {cs : List Char} (h : WholeLines cs) (hn : '\n' ∉ cs) : cs = [] := by
  rcases h with h | h
  · exact h
  · exact absurd (List.mem_of_getLast? h) hn

/-! ## Pieces end at line breaks -/

section Head

variable {p : Char → Bool} {tail : List Char} (h : ∀ x ∈ tail.head?, p x = false)

include h

theorem takeWhile_append_of_head (cs : List Char) :
    (cs ++ tail).takeWhile p = cs.takeWhile p := by
  induction cs with
  | nil =>
    cases tail with
    | nil => rfl
    | cons x tail => exact List.takeWhile_cons_of_neg (by simp [h x rfl])
  | cons c cs ih =>
    rw [List.cons_append, List.takeWhile_cons, List.takeWhile_cons, ih]

theorem dropWhile_append_of_head (cs : List Char) :
    (cs ++ tail).dropWhile p = cs.dropWhile p ++ tail := by
  induction cs with
  | nil =>
    cases tail with
    | nil => rfl
    | cons x tail => exact List.dropWhile_cons_of_neg (by simp [h x rfl])
  | cons c cs ih =>
    rw [List.cons_append, List.dropWhile_cons, List.dropWhile_cons, ih]
    split
    · rfl
    · rfl

end Head

/-- Characters of line breaks belong to no other class. -/
theorem eq_of_isBreak {c : Char} (h : isBreak c = true) : c = '\n' ∨ c = '\r' := by
  rw [isBreak, Bool.or_eq_true, beq_iff_eq, beq_iff_eq] at h
  exact h

theorem head_of_isBreak {tail : List Char} (h : ∀ x ∈ tail.head?, isBreak x = true)
    {p : Char → Bool} (hp : p '\n' = false) (hr : p '\r' = false) :
    ∀ x ∈ tail.head?, p x = false := by
  intro x hx
  rcases eq_of_isBreak (h x hx) with rfl | rfl
  · exact hp
  · exact hr

namespace Piece

variable {tail : List Char}

theorem run_append {p : Char → Bool} (h : ∀ x ∈ tail.head?, p x = false) (role : Role)
    (c : Char) (cs : List Char) :
    run role p c (cs ++ tail) =
      ⟨(run role p c cs).role, (run role p c cs).text, (run role p c cs).rest ++ tail⟩ := by
  rw [run, takeWhile_append_of_head h, dropWhile_append_of_head h]
  rfl

theorem word_append (h : ∀ x ∈ tail.head?, isWordPart x = false) (c : Char) (cs : List Char) :
    word c (cs ++ tail) = ⟨(word c cs).role, (word c cs).text, (word c cs).rest ++ tail⟩ := by
  rw [word, takeWhile_append_of_head h, dropWhile_append_of_head h]
  rfl

theorem equals_append (h : ∀ x ∈ tail.head?, x ≠ '=') (cs : List Char) :
    equals (cs ++ tail) =
      ⟨(equals cs).role, (equals cs).text, (equals cs).rest ++ tail⟩ := by
  have hother : ∀ {d : Char} (ds : List Char), d ≠ '=' →
      equals (d :: ds) = ⟨.token .assign, ['='], d :: ds⟩ := by
    intro d ds hd
    unfold equals
    split
    · rename_i hd'
      exact absurd (List.cons.inj hd').1 hd
    · rfl
  cases cs with
  | nil =>
    cases tail with
    | nil => rfl
    | cons x tail => exact hother tail (h x rfl)
  | cons d ds =>
    by_cases hq : d = '='
    · subst hq
      rfl
    · rw [List.cons_append, hother _ hq, hother _ hq]
      rfl

/-- A closing quote makes a string, whatever follows it. -/
theorem quoted_of_close {as : List Char} (h : ∀ c ∈ as, isStringPart c = true) (rest : List Char) :
    quoted (as ++ '"' :: rest) = ⟨.token .str, '"' :: as ++ ['"'], rest⟩ := by
  have hq : isStringPart '"' = false := rfl
  rw [quoted, List.dropWhile_append_of_pos h, List.takeWhile_append_of_pos h,
    List.dropWhile_cons_of_neg (by simp [hq]), List.takeWhile_cons_of_neg (by simp [hq]),
    List.append_nil]
  rfl

/-- Without a closing quote the rest of the line is a fault. -/
theorem quoted_of_not_close {cs : List Char}
    (h : ∀ rest, cs.dropWhile isStringPart ≠ '"' :: rest) :
    quoted cs = ⟨.fault, '"' :: cs.takeWhile isStringPart, cs.dropWhile isStringPart⟩ := by
  unfold quoted
  split
  · rename_i rest hd
    exact absurd hd (h rest)
  · rfl

/-- A string is closed on its line, and a line break closes none. -/
theorem quoted_append (cs : List Char)
    (h : (∀ x ∈ tail.head?, isBreak x = true) ∨ (quoted cs).role ≠ .fault) :
    quoted (cs ++ tail) =
      ⟨(quoted cs).role, (quoted cs).text, (quoted cs).rest ++ tail⟩ := by
  by_cases hclose : ∃ rest, cs.dropWhile isStringPart = '"' :: rest
  · obtain ⟨rest, hrest⟩ := hclose
    have hpart : ∀ c ∈ cs.takeWhile isStringPart, isStringPart c = true :=
      fun c hc => List.mem_takeWhile_imp hc
    have hcs := List.takeWhile_append_dropWhile (p := isStringPart) (l := cs)
    rw [hrest] at hcs
    rw [← hcs, List.append_assoc, List.cons_append, quoted_of_close hpart, quoted_of_close hpart]
  · have hopen : ∀ rest, cs.dropWhile isStringPart ≠ '"' :: rest :=
      fun rest hrest => hclose ⟨rest, hrest⟩
    have htail : ∀ x ∈ tail.head?, isBreak x = true := by
      refine h.resolve_right fun hr => hr ?_
      rw [quoted_of_not_close hopen]
    have hhead := head_of_isBreak htail (p := isStringPart) rfl rfl
    rw [quoted_of_not_close hopen, quoted_of_not_close, takeWhile_append_of_head hhead,
      dropWhile_append_of_head hhead]
    intro rest hrest
    rw [dropWhile_append_of_head hhead] at hrest
    cases hd : cs.dropWhile isStringPart with
    | nil =>
      rw [hd, List.nil_append] at hrest
      rw [hrest] at htail
      exact absurd (htail '"' rfl) (by decide)
    | cons d ds =>
      rw [hd, List.cons_append] at hrest
      exact hopen ds (by rw [hd, (List.cons.inj hrest).1])

end Piece

/-- A carriage return that no line feed follows starts no token. -/
theorem Dialect.piece_return {cs : List Char} (h : cs.head? ≠ some '\n') :
    Dialect.dented.piece '\r' cs = ⟨.fault, ['\r'], cs⟩ := by
  rw [piece, if_neg (by decide), if_neg (by decide), if_neg (by decide), if_neg (by decide),
    if_neg (by decide), if_neg (by decide), if_neg (by decide), if_pos rfl]
  rintro rest rfl
  exact h rfl

/-- A comment leaves nothing of its row, or a lone carriage return and what is behind that. -/
theorem Dialect.rest_comment {cs : List Char} (h : '\n' ∉ cs) :
    (Dialect.dented.piece '#' cs).rest = [] ∧ (∀ c ∈ cs, isBreak c = false) ∨
      ∃ ds, (Dialect.dented.piece '#' cs).rest = '\r' :: ds ∧
        Dialect.dented.piece '\r' ds = ⟨.fault, ['\r'], ds⟩ := by
  show cs.dropWhile (!isBreak ·) = [] ∧ _ ∨ ∃ ds, cs.dropWhile (!isBreak ·) = _ ∧ _
  have hhead := List.head?_dropWhile_not (!isBreak ·) cs
  cases hd : cs.dropWhile (!isBreak ·) with
  | nil =>
    refine .inl ⟨rfl, fun c hc => ?_⟩
    simpa using List.dropWhile_eq_nil_iff.1 hd c hc
  | cons d ds =>
    rw [hd] at hhead
    have hmem : ∀ x ∈ d :: ds, x ∈ cs := by
      intro x hx
      rw [← hd] at hx
      exact (List.dropWhile_sublist _).mem hx
    rcases eq_of_isBreak (c := d) (by simpa using hhead) with rfl | rfl
    · exact absurd (hmem _ List.mem_cons_self) h
    · refine .inr ⟨ds, rfl, piece_return fun hn => ?_⟩
      exact h (hmem _ (List.mem_cons_of_mem _ (List.mem_of_head? hn)))

/-- A text begins with no character that goes on a token. -/
def Stops (tail : List Char) : Prop := ∀ x ∈ tail.head?, isWordPart x = false ∧ x ≠ '='

/-- A piece is not changed by what follows its row, if that cannot belong to it: it starts with a
character of line breaks, or the piece is a token and it does not go on a token. -/
theorem Dialect.piece_append_of_head {c : Char} {cs tail : List Char} (hc : c ≠ '\n')
    (htail : (∀ x ∈ tail.head?, isBreak x = true) ∨
      (∃ k, (Dialect.dented.piece c cs).role = .token k) ∧ Stops tail)
    (hcr : c = '\r' → (cs ++ tail).head? ≠ some '\n') :
    Dialect.dented.piece c (cs ++ tail) =
      ⟨(Dialect.dented.piece c cs).role, (Dialect.dented.piece c cs).text,
        (Dialect.dented.piece c cs).rest ++ tail⟩ := by
  have hword : ∀ x ∈ tail.head?, isWordPart x = false :=
    htail.elim (fun h => head_of_isBreak h rfl rfl) fun h x hx => (h.2 x hx).1
  have hdigit : ∀ x ∈ tail.head?, x.isDigit = false := by
    intro x hx
    have hx := hword x hx
    rw [isWordPart, Bool.or_eq_false_iff] at hx
    exact hx.2
  have heq : ∀ x ∈ tail.head?, x ≠ '=' :=
    htail.elim (fun h x hx e => absurd (h x hx) (e ▸ by decide)) fun h x hx => (h.2 x hx).2
  by_cases hr : c = '\r'
  · subst hr
    have hhead := hcr rfl
    rw [piece_return hhead, piece_return]
    intro hcs
    rw [List.head?_append, hcs] at hhead
    exact hhead rfl
  -- Gaps and faults are told apart from what follows by a line break alone.
  have hbreak : (∀ k, (Dialect.dented.piece c cs).role ≠ .token k) →
      ∀ x ∈ tail.head?, isBreak x = true :=
    fun h => htail.resolve_right fun ht => ht.1.elim fun k hk => h k hk
  unfold piece at hbreak ⊢
  by_cases hb : Dialect.dented.isBlank c = true
  · simp only [if_pos hb] at hbreak ⊢
    exact Piece.run_append (head_of_isBreak (hbreak fun _ => nofun) rfl rfl) _ c cs
  by_cases hs : c = '#'
  · simp only [if_neg hb, if_pos hs] at hbreak ⊢
    exact Piece.run_append (head_of_isBreak (hbreak fun _ => nofun) rfl rfl) _ c cs
  by_cases hw : isWordStart c = true
  · simp only [if_neg hb, if_neg hs, if_pos hw]
    exact Piece.word_append hword c cs
  by_cases hd : c.isDigit = true
  · simp only [if_neg hb, if_neg hs, if_neg hw, if_pos hd]
    exact Piece.run_append hdigit _ c cs
  by_cases hq : c = '"'
  · simp only [if_neg hb, if_neg hs, if_neg hw, if_neg hd, if_pos hq] at hbreak ⊢
    refine Piece.quoted_append cs ?_
    by_cases hf : (Piece.quoted cs).role = .fault
    · exact .inl (hbreak fun k => by rw [hf]; nofun)
    · exact .inr hf
  by_cases he : c = '='
  · simp only [if_neg hb, if_neg hs, if_neg hw, if_neg hd, if_neg hq, if_pos he]
    exact Piece.equals_append heq cs
  simp only [if_neg hb, if_neg hs, if_neg hw, if_neg hd, if_neg hq, if_neg he, if_neg hc]
  simp only [if_neg hr]
  cases Dialect.dented.punctuation? c <;> rfl

/-- What follows the next line break does not change the piece in front of it. -/
theorem Dialect.piece_append {c : Char} {cs tail : List Char} (hc : c ≠ '\n')
    (htail : ∀ x ∈ tail.head?, isBreak x = true)
    (hcr : c = '\r' → (cs ++ tail).head? ≠ some '\n') :
    Dialect.dented.piece c (cs ++ tail) =
      ⟨(Dialect.dented.piece c cs).role, (Dialect.dented.piece c cs).text,
        (Dialect.dented.piece c cs).rest ++ tail⟩ :=
  piece_append_of_head hc (.inl htail) hcr

/-! ## Content -/

namespace Scan

/-- Whether an item of a stream is a line break. -/
def isNewline : Except LexError Lexeme → Bool
  | .ok x => x.kind == .newline
  | .error _ => false

/-- The items of the dented text `cs`, which starts at `p`, without its line breaks. -/
def content (p : Position) (cs : List Char) : List (Except LexError Lexeme) :=
  (Scan.ofChars .dented p cs).items.filter (!isNewline ·)

@[simp]
theorem content_nil (p : Position) : content p [] = [] := by rw [content, ofChars_nil]; rfl

/-- What the first piece of a text contributes to its content. -/
theorem content_cons (p : Position) (c : Char) (cs : List Char) :
    content p (c :: cs) =
      (item? p (p.past (Dialect.dented.piece c cs).text)
        (Dialect.dented.piece c cs).role).toList.filter (!isNewline ·) ++
        content (p.past (Dialect.dented.piece c cs).text) (Dialect.dented.piece c cs).rest := by
  rw [content, ofChars_cons, List.filter_append]
  rfl

/-- A gap only moves what follows. -/
theorem content_of_gap {p : Position} {c : Char} {cs : List Char}
    (h : (Dialect.dented.piece c cs).role = .gap) :
    content p (c :: cs) =
      content (p.past (Dialect.dented.piece c cs).text) (Dialect.dented.piece c cs).rest := by
  rw [content_cons, h]
  rfl

/-- A line break with what is read along with it only moves what follows. -/
theorem content_of_newline {p : Position} {c : Char} {cs : List Char}
    (h : (Dialect.dented.piece c cs).role = .token .newline) :
    content p (c :: cs) =
      content (p.past (Dialect.dented.piece c cs).text) (Dialect.dented.piece c cs).rest := by
  rw [content_cons, h]
  rfl

/-- A blank only moves what follows, also where it joins a gap that is there. -/
theorem content_blank (p : Position) {c : Char} (h : Dialect.dented.isBlank c = true)
    (cs : List Char) : content p (c :: cs) = content (p.next c) cs := by
  rw [content, ofChars_blank h]
  rfl

/-- Blanks only move what follows. -/
theorem content_blanks {blanks : List Char} (h : ∀ c ∈ blanks, Dialect.dented.isBlank c = true)
    (p : Position) (cs : List Char) : content p (blanks ++ cs) = content (p.past blanks) cs := by
  rw [content, ofChars_blanks h]
  rfl

theorem isBlank_of_isIndentBlank {c : Char} (h : isIndentBlank c = true) (d : Dialect) :
    d.isBlank c = true := by
  rw [Dialect.isBlank, h]
  rfl

/-- What is read along with a line break only moves what follows. -/
theorem content_breakRun (p : Position) (cs : List Char) :
    content p cs =
      content (p.past (Piece.breakRun cs)) (cs.drop (Piece.breakRun cs).length) := by
  fun_induction Piece.breakRun cs generalizing p with
  | case1 cs _ => exact content_of_newline rfl
  | case2 c cs _ hc ih =>
    rcases hc with rfl | hc
    · exact content_of_newline rfl
    · rw [content_blank p (isBlank_of_isIndentBlank hc _), ih]
      rfl
  | case3 => rfl
  | case4 => rfl

/-- A line break only moves what follows. -/
theorem content_break {row br : List Char} (h : EndsRow row br) (p : Position) (cs : List Char) :
    content p (br ++ cs) = content (p.past br) cs := by
  cases h with
  | lf =>
    rw [content_breakRun (p.past _), ← Position.past_append]
    exact content_of_newline rfl
  | crlf =>
    rw [content_breakRun (p.past _), ← Position.past_append]
    exact content_of_newline rfl

/-- The content of a text is that of its first row and that of the text behind the line break. -/
theorem content_row {row br : List Char} (h : EndsRow row br) (p : Position) (rest : List Char) :
    content p (row ++ (br ++ rest)) = content p row ++ content (p.past (row ++ br)) rest := by
  induction hlen : row.length using Nat.strongRecOn generalizing row p with
  | ind n ih =>
    cases row with
    | nil =>
      rw [content_nil]
      exact content_break h p rest
    | cons c cs =>
      have hc : c ≠ '\n' := fun e => h.not_mem (e ▸ List.mem_cons_self)
      have htext := Dialect.dented.piece_text_append_rest c cs
      have hlt := hlen ▸ Dialect.dented.piece_rest_length_lt c cs
      rw [List.cons_append, content_cons, content_cons,
        Dialect.piece_append hc (h.isBreak_head rest) (h.head?_append_ne rest)]
      simp only
      rw [ih _ hlt (EndsRow.of_append (htext ▸ h)) _ rfl, List.append_assoc,
        ← Position.past_append, ← List.append_assoc _ _ br, htext]

/-- The content of whole lines stands in front of that of the text behind them. -/
theorem content_append {as : List Char} (h : WholeLines as) (p : Position) (bs : List Char) :
    content p (as ++ bs) = content p as ++ content (p.past as) bs := by
  induction as using rowInduction generalizing p with
  | last cs hcs =>
    rw [h.eq_nil hcs, content_nil]
    rfl
  | row row br rest hrow ih =>
    rw [List.append_assoc, List.append_assoc, content_row hrow, content_row hrow,
      ih h.of_append.of_append, List.append_assoc, ← Position.past_append, List.append_assoc]

end Scan

end OffsideBench

import OffsideBench.Proofs.NormalForm
import OffsideBench.Proofs.Rows

/-!
# Pieces are longest matches

`Dialect.Matches` says which texts a form has patterns for: its gaps and its tokens. A piece that is
no fault matches the pattern of its role, and no other match at its place is longer
(`Dialect.length_le_piece`), nor is there another role for the same text. So a piece is found again
whenever a match of its text stands in front of something that cannot make it longer
(`Dialect.piece_of_longest`), and at a fault nothing matches in the first place.
-/

namespace OffsideBench

open Token (Kind)

namespace Dialect

variable {d : Dialect} {c : Char} {cs text : List Char} {k : Kind} {r : Piece.Role}

/-! ## The patterns of a form -/

/-- Text between tokens: a run of blanks or a comment. -/
inductive Skips (d : Dialect) : List Char → Prop where
  | blanks {c : Char} {cs : List Char} (hc : d.isBlank c = true)
      (hcs : ∀ x ∈ cs, d.isBlank x = true) : Skips d (c :: cs)
  /-- A comment, which ends in front of a line break. -/
  | comment {cs : List Char} (hcs : ∀ x ∈ cs, isBreak x = false) : Skips d ('#' :: cs)

/-- The kinds that the tokens of a form can have: line breaks are tokens of the dented form only,
marks of block structure of the braced form only. -/
def HasKind (d : Dialect) (k : Kind) : Prop :=
  match d with
  | .dented => ∀ c, brace? c ≠ some k
  | .braced => k ≠ .newline

/-- The text matches a pattern of the form for the given role. -/
def Matches (d : Dialect) (role : Piece.Role) (text : List Char) : Prop :=
  match role with
  | .gap => d.Skips text
  | .token k => Spells k text ∧ d.HasKind k
  | .fault => False

theorem Matches.ne_nil (h : d.Matches r text) : text ≠ [] := by
  cases r with
  | gap => cases h <;> simp
  | token k => exact h.1.ne_nil
  | fault => cases h

/-! ## What is found matches -/

theorem hasKind_piece (h : (d.piece c cs).role = .token k) : d.HasKind k := by
  cases d with
  | dented => exact brace?_ne_of_dented h
  | braced => exact ne_newline_of_braced h

theorem skips_piece (h : (d.piece c cs).role = .gap) : d.Skips (d.piece c cs).text := by
  rcases piece_of_gap h with ⟨hb, hpiece⟩ | ⟨rfl, hpiece⟩
  · rw [hpiece]
    exact .blanks hb fun x hx => List.mem_takeWhile_imp hx
  · rw [hpiece]
    refine .comment fun x hx => ?_
    simpa using List.mem_takeWhile_imp hx

theorem matches_piece (h : (d.piece c cs).role ≠ .fault) :
    d.Matches (d.piece c cs).role (d.piece c cs).text := by
  cases hr : (d.piece c cs).role with
  | gap => exact skips_piece hr
  | token k => exact ⟨d.spells_piece c cs hr, hasKind_piece hr⟩
  | fault => exact absurd hr h

/-! ## What matches is found -/

/-- The piece `p` starts with `text`, and is of the role `r` unless it is longer. -/
structure Covers (p : Piece) (r : Piece.Role) (text : List Char) : Prop where
  sound : p.role ≠ .fault
  longer : ∃ more, p.text = text ++ more ∧ (more = [] → p.role = r)

theorem covers_self (hr : r ≠ .fault) (rest : List Char) : Covers ⟨r, text, rest⟩ r text :=
  ⟨hr, [], (List.append_nil text).symm, fun _ => rfl⟩

theorem covers_run {p : Char → Bool} (hr : r ≠ .fault) (hcs : ∀ x ∈ cs, p x = true)
    (rest : List Char) : Covers (.run r p c (cs ++ rest)) r (c :: cs) := by
  refine ⟨hr, rest.takeWhile p, ?_, fun _ => rfl⟩
  show c :: (cs ++ rest).takeWhile p = _
  rw [List.takeWhile_append_of_pos hcs]
  rfl

theorem covers_word (hcs : ∀ x ∈ cs, isWordPart x = true) (rest : List Char) :
    Covers (.word c (cs ++ rest)) (.token (Kind.ofWord (c :: cs))) (c :: cs) := by
  have htext : c :: (cs ++ rest).takeWhile isWordPart = c :: cs ++ rest.takeWhile isWordPart := by
    rw [List.takeWhile_append_of_pos hcs]
    rfl
  refine ⟨nofun, rest.takeWhile isWordPart, htext, fun hmore => ?_⟩
  show Piece.Role.token (Kind.ofWord (c :: (cs ++ rest).takeWhile isWordPart)) = _
  rw [htext, hmore, List.append_nil]

theorem covers_equals (rest : List Char) : Covers (.equals rest) (.token .assign) ['='] := by
  unfold Piece.equals
  split
  · exact ⟨nofun, ['='], rfl, fun h => absurd h (by simp)⟩
  · exact covers_self (by nofun) rest

theorem breakRun_cons (hc : c = '\n' ∨ isIndentBlank c = true) (rest : List Char) :
    Piece.breakRun (c :: rest) = c :: Piece.breakRun rest := by
  have hr : c ≠ '\r' := by
    rintro rfl
    rcases hc with hc | hc <;> exact absurd hc (by decide)
  rw [Piece.breakRun.eq_2 _ _ fun _ hc' _ => hr hc']
  exact if_pos hc

theorem breakRun_blanks {blanks : List Char} (hb : ∀ x ∈ blanks, isIndentBlank x = true)
    (rest : List Char) : Piece.breakRun (blanks ++ rest) = blanks ++ Piece.breakRun rest := by
  induction blanks with
  | nil => rfl
  | cons b blanks ih =>
    obtain ⟨hb, hblanks⟩ := List.forall_mem_cons.1 hb
    rw [List.cons_append, breakRun_cons (.inr hb), ih hblanks]
    rfl

theorem breakRun_lineBreak {cr : List Char} (hcr : cr = [] ∨ cr = ['\r']) (rest : List Char) :
    Piece.breakRun (cr ++ '\n' :: rest) = cr ++ '\n' :: Piece.breakRun rest := by
  rcases hcr with rfl | rfl
  · exact breakRun_cons (.inl rfl) rest
  · rw [List.singleton_append, Piece.breakRun.eq_1]
    rfl

theorem breakRun_lineBreaks (h : LineBreaks text) (rest : List Char) :
    Piece.breakRun (text ++ rest) = text ++ Piece.breakRun rest := by
  induction h with
  | last hcr hb => simp [breakRun_lineBreak hcr, breakRun_blanks hb]
  | more hcr hb _ ih => simp [breakRun_lineBreak hcr, breakRun_blanks hb, ih]

theorem lineBreaks_front (h : LineBreaks text) :
    ∃ tail, text = '\n' :: tail ∨ text = '\r' :: '\n' :: tail := by
  cases h with
  | last hcr => rcases hcr with rfl | rfl <;> simp
  | more hcr => rcases hcr with rfl | rfl <;> simp

theorem covers_newline (h : LineBreaks (c :: cs)) (rest : List Char) :
    Covers (Dialect.dented.piece c (cs ++ rest)) (.token .newline) (c :: cs) := by
  have hrun := breakRun_lineBreaks h rest
  obtain ⟨tail, hfront | hfront⟩ := lineBreaks_front h
  · obtain ⟨rfl, rfl⟩ := List.cons.inj hfront
    rw [List.cons_append, breakRun_cons (.inl rfl)] at hrun
    exact ⟨nofun, Piece.breakRun rest, hrun, fun _ => rfl⟩
  · obtain ⟨rfl, rfl⟩ := List.cons.inj hfront
    rw [List.cons_append, List.cons_append, Piece.breakRun.eq_1] at hrun
    exact ⟨nofun, Piece.breakRun rest, hrun, fun _ => rfl⟩

/-- What matches at the front of a text is found there, or something longer. -/
theorem covers_piece (h : d.Matches r (c :: cs)) (rest : List Char) :
    Covers (d.piece c (cs ++ rest)) r (c :: cs) := by
  cases r with
  | gap =>
    cases h with
    | blanks hc hcs =>
      rw [piece_blank hc]
      exact covers_run (by nofun) hcs rest
    | comment hcs =>
      have hhash : d.piece '#' (cs ++ rest) = .run .gap (!isBreak ·) '#' (cs ++ rest) := by
        cases d <;> rfl
      rw [hhash]
      exact covers_run (by nofun) (fun x hx => by rw [hcs x hx]; rfl) rest
  | token k =>
    obtain ⟨hspells, hkind⟩ := h
    cases hspells with
    | word hc hcs =>
      rw [piece_word hc]
      exact covers_word hcs rest
    | int hc hcs =>
      rw [piece_digit hc]
      exact covers_run (by nofun) hcs rest
    | @str cs hcs =>
      rw [piece_quote, List.append_assoc, List.singleton_append, Piece.quoted_of_close hcs]
      exact covers_self (by nofun) rest
    | assign =>
      have hequals : d.piece '=' ([] ++ rest) = .equals rest := by cases d <;> rfl
      rw [hequals]
      exact covers_equals rest
    | eqEq =>
      have hequals : d.piece '=' (['='] ++ rest) = ⟨.token .eqEq, ['=', '='], rest⟩ := by
        cases d <;> rfl
      rw [hequals]
      exact covers_self (by nofun) rest
    | operator ho =>
      rw [piece_operator ho]
      exact covers_self (by nofun) rest
    | brace hb =>
      cases d with
      | dented => exact absurd hb (hkind c)
      | braced =>
        rw [piece_brace hb]
        exact covers_self (by nofun) rest
    | newline hbreaks =>
      cases d with
      | dented => exact covers_newline hbreaks rest
      | braced => exact absurd rfl hkind
  | fault => cases h

/-! ## Longest matches -/

/-- No match at the place of `text`, in front of `rest`, is longer than `text`. -/
def Longest (d : Dialect) (text rest : List Char) : Prop :=
  ∀ role other, d.Matches role other → other <+: text ++ rest → other.length ≤ text.length

theorem Longest.of_append {rest after : List Char} (h : d.Longest text (rest ++ after)) :
    d.Longest text rest := by
  intro role other hmatch hfront
  refine h role other hmatch (hfront.trans ?_)
  rw [← List.append_assoc]
  exact List.prefix_append _ _

theorem role_of_matches (h : d.Matches r text) (hfront : text <+: c :: cs) :
    (d.piece c cs).role ≠ .fault ∧ text.length ≤ (d.piece c cs).text.length := by
  obtain ⟨rest, hrest⟩ := hfront
  obtain ⟨b, bs, rfl⟩ := List.exists_cons_of_ne_nil h.ne_nil
  obtain ⟨rfl, rfl⟩ := List.cons.inj (show b :: (bs ++ rest) = c :: cs from hrest)
  obtain ⟨hsound, more, htext, -⟩ := covers_piece h rest
  refine ⟨hsound, ?_⟩
  rw [htext, List.length_append]
  exact Nat.le_add_right _ _

theorem longest_piece (d : Dialect) (c : Char) (cs : List Char) :
    d.Longest (d.piece c cs).text (d.piece c cs).rest := by
  intro role other hmatch hfront
  rw [piece_text_append_rest] at hfront
  exact (role_of_matches hmatch hfront).2

/-- A longest match is found as it stands. -/
theorem piece_of_longest {rest : List Char} (h : d.Matches r (c :: cs))
    (hlongest : d.Longest (c :: cs) rest) : d.piece c (cs ++ rest) = ⟨r, c :: cs, rest⟩ := by
  obtain ⟨hsound, more, htext, hrole⟩ := covers_piece h rest
  have hwhole := d.piece_text_append_rest c (cs ++ rest)
  -- the piece starts with the text and is a match itself, so it has nothing more
  have hfound := hlongest _ _ (matches_piece hsound) ⟨_, hwhole⟩
  have hmore : more = [] := by
    rw [htext, List.length_append] at hfound
    exact List.length_eq_zero_iff.1 (by omega)
  rw [htext, hmore, List.append_nil] at hwhole
  have hrest : (d.piece c (cs ++ rest)).rest = rest := List.append_cancel_left hwhole
  rw [hmore, List.append_nil] at htext
  cases hpiece : d.piece c (cs ++ rest)
  simp_all

theorem Matches.role_unique {r' : Piece.Role} (h : d.Matches r text) (h' : d.Matches r' text) :
    r = r' := by
  obtain ⟨c, cs, rfl⟩ := List.exists_cons_of_ne_nil h.ne_nil
  -- with nothing behind it the text is its own longest match, in either role
  have hlongest : d.Longest (c :: cs) [] := by
    intro role other _ hfront
    rw [List.append_nil] at hfront
    exact hfront.length_le
  have hpiece := piece_of_longest h hlongest
  rw [piece_of_longest h' hlongest] at hpiece
  exact (congrArg Piece.role hpiece).symm

/-! ## Keywords -/

/-- The words that are no identifiers. -/
def keywords : List (String × Kind) :=
  [("def", .defWord), ("if", .ifWord), ("else", .elseWord), ("while", .whileWord),
    ("return", .returnWord)]

theorem matches_word (d : Dialect) (c : Char) (cs : List Char) (hc : isWordStart c = true)
    (hcs : ∀ x ∈ cs, isWordPart x = true) :
    d.Matches (.token (Kind.ofWord (c :: cs))) (c :: cs) := by
  refine ⟨.word hc hcs, ?_⟩
  cases d with
  | dented => exact fun b => brace?_ne_ofWord b (c :: cs)
  | braced => exact Kind.ne_of_isContent (Spells.kind_ofWord _) rfl

theorem matches_keyword (d : Dialect) {word : String} (h : (word, k) ∈ keywords) :
    d.Matches (.token k) word.toList := by
  simp only [keywords, List.mem_cons, Prod.mk.injEq, List.not_mem_nil, or_false] at h
  rcases h with ⟨rfl, rfl⟩ | ⟨rfl, rfl⟩ | ⟨rfl, rfl⟩ | ⟨rfl, rfl⟩ | ⟨rfl, rfl⟩
  · exact matches_word d 'd' ['e', 'f'] rfl (List.all_eq_true.1 rfl)
  · exact matches_word d 'i' ['f'] rfl (List.all_eq_true.1 rfl)
  · exact matches_word d 'e' ['l', 's', 'e'] rfl (List.all_eq_true.1 rfl)
  · exact matches_word d 'w' ['h', 'i', 'l', 'e'] rfl (List.all_eq_true.1 rfl)
  · exact matches_word d 'r' ['e', 't', 'u', 'r', 'n'] rfl (List.all_eq_true.1 rfl)

/-- A token is a keyword if its whole text is one, and only then. -/
theorem Matches.keyword_iff {word : String} (h : d.Matches r text) (hword : (word, k) ∈ keywords) :
    r = .token k ↔ String.ofList text = word := by
  constructor
  · rintro rfl
    obtain ⟨hspells, -⟩ := h
    cases hspells with
    | @word c cs =>
      generalize c :: cs = text at hword ⊢
      unfold Kind.ofWord at hword
      split at hword <;> simp_all [keywords]
    | operator ho =>
      rcases eq_of_operator? ho with
        rfl | rfl | rfl | rfl | rfl | rfl | rfl | rfl | rfl | rfl <;> cases ho <;>
          simp [keywords] at hword
    | brace hb => rcases eq_of_brace? hb with rfl | rfl | rfl <;> cases hb <;> simp [keywords] at hword
    | _ => simp [keywords] at hword
  · rintro rfl
    have hkeyword := matches_keyword d hword
    rw [String.toList_ofList] at hkeyword
    exact h.role_unique hkeyword

/-! ## Faults -/

/-- A text that does not begin with a token or with something between tokens. -/
inductive Rejects (d : Dialect) : List Char → Prop where
  /-- A quote that is not closed on its line. -/
  | quote {cs : List Char} (hcs : '"' ∉ cs.takeWhile (!isBreak ·)) : Rejects d ('"' :: cs)
  /-- A carriage return that belongs to no line break. -/
  | carriageReturn {cs : List Char} (hd : d = .dented) (hcs : cs.head? ≠ some '\n') :
      Rejects d ('\r' :: cs)
  /-- A character that begins nothing. -/
  | character {c : Char} {cs : List Char} (hc : ∀ role text, ¬ d.Matches role (c :: text)) :
      Rejects d (c :: cs)

theorem exists_close (h : '"' ∈ cs.takeWhile (!isBreak ·)) :
    ∃ rest, cs.dropWhile isStringPart = '"' :: rest := by
  induction cs with
  | nil => cases h
  | cons c cs ih =>
    by_cases hb : isBreak c = true
    · rw [List.takeWhile_cons_of_neg (by simp [hb])] at h
      cases h
    · rw [List.takeWhile_cons_of_pos (by simp [hb])] at h
      by_cases hc : c = '"'
      · subst hc
        exact ⟨cs, rfl⟩
      · have hpart : isStringPart c = true := by simp [isStringPart, hc, hb]
        rw [List.dropWhile_cons_of_pos hpart]
        exact ih ((List.mem_cons.1 h).resolve_left (Ne.symm hc))

theorem not_mem_takeWhile_of_quoted (h : (Piece.quoted cs).role = .fault) :
    '"' ∉ cs.takeWhile (!isBreak ·) := by
  intro hmem
  obtain ⟨rest, hrest⟩ := exists_close hmem
  unfold Piece.quoted at h
  rw [hrest] at h
  cases h

theorem rejects_of_fault (h : (d.piece c cs).role = .fault) : d.Rejects (c :: cs) := by
  have hbegins := d.begins c cs
  generalize d.piece c cs = p at h hbegins
  cases hbegins with
  | quoted hq =>
    subst hq
    exact .quote (not_mem_takeWhile_of_quoted h)
  | equals =>
    rcases Piece.role_equals cs with hr | hr <;> rw [hr] at h <;> cases h
  | lone hr hb hcs =>
    subst hr
    cases d with
    | dented => exact .carriageReturn rfl hcs
    | braced => exact absurd rfl hb
  | unknown hfault =>
    -- a match would be covered by the piece at its front, but that is a fault whatever follows
    refine .character fun role text hmatch => ?_
    have hsound := (covers_piece hmatch []).sound
    rw [hfault] at hsound
    exact hsound rfl
  | _ => cases h

end Dialect

end OffsideBench

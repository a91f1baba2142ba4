import OffsideBench.Proofs.Fixture.Growing
import OffsideBench.Proofs.Layout.Edits

/-!
# How programs are read

What the text of a synthetic program holds, row by row: the tokens of each line are of the kinds it
was written for, and its blanks are those of its depth. Texts are put together from parts, and a
part is read as it was written wherever nothing follows it that goes on a token (`ReadsAs`).

Main statements: `Header.isBody`, `Statement.isBody`, and `exists_holds`, what a row with such a
body holds.
-/

namespace OffsideBench

open Token (Kind)

/-! ## Parts of a row -/

theorem Stops.nil : Stops [] := by simp [Stops]

theorem Stops.append {as bs : List Char} (ha : Stops as) (hb : Stops bs) : Stops (as ++ bs) := by
  cases as with
  | nil => exact hb
  | cons a as => exact ha

theorem Stops.blank (cs : List Char) : Stops (' ' :: cs) := by
  rintro x ⟨⟩
  decide

theorem Stops.operator {c : Char} (h : c ∈ [':', ',', '(', ')']) (cs : List Char) :
    Stops (c :: cs) := by
  rintro x ⟨⟩
  simp only [List.mem_cons, List.not_mem_nil, or_false] at h
  rcases h with rfl | rfl | rfl | rfl <;> decide

/-- Whether a text is a word. -/
def isWord : List Char → Bool
  | [] => false
  | c :: cs => isWordStart c && cs.all isWordPart

theorem not_isBreak_of_isWordPart {c : Char} (h : isWordPart c = true) : isBreak c = false := by
  by_contra hb
  rcases eq_of_isBreak (Bool.not_eq_false _ ▸ hb) with rfl | rfl <;> exact absurd h (by decide)

/-- The part `cs` of a row is read as tokens of the kinds `ks`. -/
structure ReadsAs (cs : List Char) (ks : List Kind) : Prop where
  /-- It stays on the row. -/
  stays : ∀ c ∈ cs, isBreak c = false
  roles : ∀ tail, Stops tail → (Dialect.dented.solid (cs ++ tail)).map Stretch.role =
    ks.map Piece.Role.token ++ (Dialect.dented.solid tail).map Stretch.role

namespace ReadsAs

variable {as bs cs : List Char} {c : Char} {k : Kind} {ks ls : List Kind}

theorem nil : ReadsAs [] [] := ⟨by simp, fun tail _ => rfl⟩

theorem append (h : ReadsAs as ks) (h' : ReadsAs bs ls) (hb : Stops bs) :
    ReadsAs (as ++ bs) (ks ++ ls) := by
  refine ⟨?_, ?_⟩
  · intro c hc
    exact (List.mem_append.1 hc).elim (h.stays c) (h'.stays c)
  · intro tail ht
    rw [List.append_assoc, h.roles _ (hb.append ht), h'.roles tail ht, List.map_append,
      List.append_assoc]

/-- A blank in front of a part. -/
theorem blank (h : ReadsAs bs ks) : ReadsAs (' ' :: bs) ks := by
  refine ⟨List.forall_mem_cons.2 ⟨rfl, h.stays⟩, ?_⟩
  intro tail ht
  rw [List.cons_append, Dialect.solid_blank rfl]
  exact h.roles tail ht

/-- An operator in front of a part, whatever that begins with. -/
theorem operator (ho : operator? c = some k) (h : ReadsAs bs ks) :
    ReadsAs (c :: bs) (k :: ks) := by
  have hpiece : ∀ tail, Dialect.dented.piece c tail = ⟨.token k, [c], tail⟩ :=
    fun tail => Dialect.piece_operator ho tail
  refine ⟨List.forall_mem_cons.2 ⟨?_, h.stays⟩, ?_⟩
  · rcases eq_of_operator? ho with rfl | rfl | rfl | rfl | rfl | rfl | rfl | rfl | rfl | rfl <;> rfl
  · intro tail ht
    rw [List.cons_append, Dialect.solid_cons (by rw [hpiece]; nofun), hpiece, List.map_cons,
      h.roles tail ht]
    rfl

/-- A token that is read as a whole when nothing follows it. -/
theorem token (hstays : ∀ x ∈ c :: cs, isBreak x = false)
    (hpiece : Dialect.dented.piece c cs = ⟨.token k, c :: cs, []⟩) : ReadsAs (c :: cs) [k] := by
  refine ⟨hstays, ?_⟩
  intro tail ht
  have hc : isBreak c = false := hstays c List.mem_cons_self
  have happend : Dialect.dented.piece c (cs ++ tail) = _ := Dialect.piece_append_of_head
    (by rintro rfl; cases hc) (.inr ⟨⟨k, by rw [hpiece]⟩, ht⟩) (by rintro rfl; cases hc)
  rw [hpiece] at happend
  rw [List.cons_append, Dialect.solid_cons (by rw [happend]; nofun), happend]
  rfl

theorem word (cs : List Char) (h : isWord cs = true) : ReadsAs cs [Kind.ofWord cs] := by
  cases cs with
  | nil => cases h
  | cons c cs =>
    obtain ⟨hc, hcs⟩ := Bool.and_eq_true_iff.1 h
    have hcs : ∀ x ∈ cs, isWordPart x = true := List.all_eq_true.1 hcs
    refine token (List.forall_mem_cons.2 ⟨?_, ?_⟩) ?_
    · exact not_isBreak_of_isWordPart (by rw [isWordPart, hc]; rfl)
    · exact fun x hx => not_isBreak_of_isWordPart (hcs x hx)
    · rw [Dialect.piece_word hc, Piece.word, List.takeWhile_eq_self_iff.2 hcs,
        List.dropWhile_eq_nil_iff.2 hcs]

/-- A word, a blank and a part. -/
theorem wordThen (as : List Char) (hw : isWord as = true) (h : ReadsAs bs ks) :
    ReadsAs (as ++ ' ' :: bs) (Kind.ofWord as :: ks) := (word as hw).append h.blank (.blank bs)

theorem number (n : Nat) : ReadsAs (toString n).toList [.int] := by
  have hdigits : ∀ x ∈ (toString n).toList, x.isDigit = true := by
    intro x hx
    rw [show toString n = n.repr from rfl, Nat.toList_repr] at hx
    exact Nat.isDigit_of_mem_toDigits (by decide) (by decide) hx
  have hne : (toString n).toList ≠ [] := by
    rw [show toString n = n.repr from rfl, Nat.toList_repr]
    exact Nat.toDigits_ne_nil
  obtain ⟨c, cs, hcs⟩ := List.exists_cons_of_ne_nil hne
  rw [hcs] at hdigits ⊢
  obtain ⟨hc, hrest⟩ := List.forall_mem_cons.1 hdigits
  refine token ?_ ?_
  · intro x hx
    exact not_isBreak_of_isWordPart (by rw [isWordPart, hdigits x hx, Bool.or_true])
  · rw [Dialect.piece_digit hc, Piece.run, List.takeWhile_eq_self_iff.2 hrest,
      List.dropWhile_eq_nil_iff.2 hrest]

theorem string (h : ∀ x ∈ cs, isStringPart x = true) : ReadsAs ('"' :: (cs ++ ['"'])) [.str] := by
  have hbreak : ∀ {x : Char}, isStringPart x = true → isBreak x = false := by
    intro x hx
    rw [isStringPart, Bool.and_eq_true] at hx
    simpa using hx.2
  refine token ?_ ?_
  · intro x hx
    simp only [List.mem_cons, List.mem_append, List.not_mem_nil, or_false] at hx
    rcases hx with rfl | hx | rfl
    · rfl
    · exact hbreak (h x hx)
    · rfl
  · rw [Dialect.piece_quote, Piece.quoted_of_close h]
    rfl

end ReadsAs

/-- A row that starts with a word starts with no blank. -/
theorem starts_word (as : List Char) (hw : isWord as = true) (bs : List Char) :
    ∀ x ∈ (as ++ bs).head?, Dialect.dented.isBlank x = false := by
  cases as with
  | nil => cases hw
  | cons a as =>
    rintro x ⟨⟩
    exact not_isBlank_of_isWordStart (Bool.and_eq_true_iff.1 hw).1

namespace Fixture

/-! ## Lines -/

/-- The kind that an operator is written for. -/
def operatorKind (operator : String) : Kind :=
  (operator.toList.head?.bind operator?).getD .eqEq

/-- The kind that an operand is written for. -/
def Operand.kind : Operand → Kind
  | number _ => .int
  | name _ => .ident

/-- The kinds that an expression is written for. -/
def Expr.kinds (e : Expr) : List Kind := [.ident, operatorKind e.operator, e.right.kind]

/-- The kinds that a header is written for, without the colon at its end. -/
def Header.kinds : Header → List Kind
  | define _ _ _ => [.defWord, .ident, .lparen, .ident, .comma, .ident, .rparen]
  | test e => .ifWord :: e.kinds
  | loop e => .whileWord :: e.kinds
  | otherwise => [.elseWord]

/-- The kinds that a statement is written for. -/
def Statement.kinds : Statement → List Kind
  | giveBack e => .returnWord :: e.kinds
  | print _ _ => [.ident, .lparen, .str, .comma, .ident, .rparen]
  | assign _ e => .ident :: .assign :: e.kinds
  | filler => [.returnWord, .int]

theorem isWord_name : ∀ name ∈ names, isWord name.toList = true ∧
    Kind.ofWord name.toList = .ident := by
  decide +kernel

theorem readsAs_name {name : String} (h : name ∈ names) : ReadsAs name.toList [.ident] := by
  obtain ⟨hword, hkind⟩ := isWord_name name h
  rw [← hkind]
  exact .word _ hword

theorem readsAs_operator {operator : String} (h : operator ∈ operators) :
    ReadsAs operator.toList [operatorKind operator] := by
  simp only [operators, List.mem_cons, List.not_mem_nil, or_false] at h
  rcases h with rfl | rfl | rfl | rfl | rfl | rfl | rfl
  · exact .operator rfl .nil
  · exact .operator rfl .nil
  · exact .operator rfl .nil
  · exact .operator rfl .nil
  · exact .operator rfl .nil
  · exact .operator rfl .nil
  · have hequals : ReadsAs ['=', '='] [.eqEq] := .token (by simp [isBreak]) rfl
    exact hequals

theorem Expr.readsAs {e : Expr} (h : e.Drawn) : ReadsAs e.text.toList e.kinds := by
  have hright : ReadsAs e.right.text.toList [e.right.kind] := by
    cases hr : e.right with
    | number n => exact .number n
    | name name => exact readsAs_name (h.right name hr)
  have htext : e.text.toList = e.left.toList ++ (' ' :: (e.operator.toList ++
      (' ' :: e.right.text.toList))) := by
    show (e.left ++ " " ++ e.operator ++ " " ++ e.right.text).toList = _
    simp
  rw [htext]
  exact (readsAs_name h.left).append
    ((readsAs_operator h.operator).append hright.blank (.blank _)).blank (.blank _)

/-- What stands in a row behind its margin: it starts with no blank and is read as tokens of the
kinds `ks`. -/
structure IsBody (cs : List Char) (ks : List Kind) : Prop extends ReadsAs cs ks where
  starts : ∀ x ∈ cs.head?, Dialect.dented.isBlank x = false

/-- A header is read as it was written: it ends in a colon. -/
theorem Header.isBody {h : Header} (hd : h.Drawn) :
    IsBody h.text.toList (h.kinds ++ [.colon]) := by
  have hcolon : ReadsAs [':'] [.colon] := .operator rfl .nil
  have hstop : Stops [':'] := Stops.operator (by decide) []
  cases h with
  | define name first second =>
    obtain ⟨hname, hfirst, hsecond⟩ := hd
    have htext : (Header.define name first second).text.toList =
        ['d', 'e', 'f'] ++ (' ' :: (name.toList ++ ('(' :: (first.toList ++ (',' :: (' ' ::
          (second.toList ++ (')' :: [':'])))))))) := by
      show ("def " ++ name ++ "(" ++ first ++ ", " ++ second ++ "):").toList = _
      simp
    have hclose : ReadsAs (')' :: [':']) [.rparen, .colon] := .operator rfl hcolon
    have hparams := ((readsAs_name hsecond).append hclose (.operator (by decide) _)).blank
    have hfirst := (readsAs_name hfirst).append (.operator (c := ',') rfl hparams)
      (.operator (by decide) _)
    have hname := (readsAs_name hname).append (.operator (c := '(') rfl hfirst)
      (.operator (by decide) _)
    rw [htext]
    exact ⟨.wordThen ['d', 'e', 'f'] rfl hname, starts_word _ rfl _⟩
  | test e =>
    have htext : (Header.test e).text.toList = ['i', 'f'] ++ (' ' :: (e.text.toList ++ [':'])) := by
      show ("if " ++ e.text ++ ":").toList = _
      simp
    rw [htext]
    exact ⟨.wordThen ['i', 'f'] rfl ((Expr.readsAs hd).append hcolon hstop), starts_word _ rfl _⟩
  | loop e =>
    have htext : (Header.loop e).text.toList =
        ['w', 'h', 'i', 'l', 'e'] ++ (' ' :: (e.text.toList ++ [':'])) := by
      show ("while " ++ e.text ++ ":").toList = _
      simp
    rw [htext]
    exact ⟨.wordThen ['w', 'h', 'i', 'l', 'e'] rfl ((Expr.readsAs hd).append hcolon hstop),
      starts_word _ rfl _⟩
  | otherwise =>
    exact ⟨(ReadsAs.word ['e', 'l', 's', 'e'] rfl).append hcolon hstop,
      starts_word ['e', 'l', 's', 'e'] rfl [':']⟩

/-- A statement is read as it was written. -/
theorem Statement.isBody {s : Statement} (hs : s.Drawn) : IsBody s.text.toList s.kinds := by
  cases s with
  | giveBack e =>
    have htext : (Statement.giveBack e).text.toList =
        ['r', 'e', 't', 'u', 'r', 'n'] ++ (' ' :: e.text.toList) := by
      show ("return " ++ e.text).toList = _
      simp
    rw [htext]
    exact ⟨.wordThen ['r', 'e', 't', 'u', 'r', 'n'] rfl (Expr.readsAs hs), starts_word _ rfl _⟩
  | print text value =>
    have htext : (Statement.print text value).text.toList =
        ['p', 'r', 'i', 'n', 't'] ++ ('(' :: (('"' :: (text.toList ++ ['"'])) ++ (',' :: (' ' ::
          (value.toList ++ [')']))))) := by
      show ("print(\"" ++ text ++ "\", " ++ value ++ ")").toList = _
      simp
    have hpart : ∀ name ∈ names, name.toList.all isStringPart = true := by decide +kernel
    have hclose : ReadsAs [')'] [.rparen] := .operator rfl .nil
    have hvalue := ((readsAs_name hs.2).append hclose (.operator (by decide) [])).blank
    have hstring := ReadsAs.string (List.all_eq_true.1 (hpart text hs.1))
    have hargs := hstring.append (.operator (c := ',') rfl hvalue) (.operator (by decide) _)
    rw [htext]
    exact ⟨(ReadsAs.word ['p', 'r', 'i', 'n', 't'] rfl).append (.operator rfl hargs)
      (.operator (by decide) _), starts_word _ rfl _⟩
  | assign name e =>
    have htext : (Statement.assign name e).text.toList =
        name.toList ++ (' ' :: (['='] ++ (' ' :: e.text.toList))) := by
      show (name ++ " = " ++ e.text).toList = _
      simp
    have hequals : ReadsAs ['='] [.assign] := .token (by simp [isBreak]) rfl
    rw [htext]
    exact ⟨(readsAs_name hs.1).append
      (hequals.append (Expr.readsAs hs.2).blank (.blank _)).blank (.blank _),
      starts_word _ (isWord_name _ hs.1).1 _⟩
  | filler =>
    exact ⟨.wordThen ['r', 'e', 't', 'u', 'r', 'n'] rfl (.number 0),
      starts_word ['r', 'e', 't', 'u', 'r', 'n'] rfl [' ', '0']⟩

/-! ## Rows -/

/-- The blanks in front of a line. -/
def margin (depth : Nat) : List Char := List.replicate (4 * depth) ' '

theorem toList_indented (depth : Nat) (s : String) :
    (indented depth s).toList = margin depth ++ s.toList ++ ['\n'] := by
  have hmargin : (String.join (List.replicate depth indentation)).toList = margin depth := by
    induction depth with
    | zero => rfl
    | succ depth ih =>
      rw [List.replicate_succ, String.join_cons, String.toList_append, ih, margin, margin,
        Nat.mul_succ, Nat.add_comm, ← List.replicate_append_replicate]
      rfl
  show (String.join (List.replicate depth indentation) ++ s ++ "\n").toList = _
  rw [String.toList_append, String.toList_append, hmargin]
  rfl

/-- A row holds a line of the given depth, whose tokens are of the kinds `ks`. -/
structure Holds (c : Code) (depth : Nat) (ks : List Kind) : Prop where
  clean : c.Clean
  lead : c.lead = margin depth
  kinds : c.tokens.map Prod.fst = ks

/-- Stretches that are tokens say their kinds. -/
theorem map_fst_reading {ss : List Stretch} {ks : List Kind}
    (h : ss.map Stretch.role = ks.map Piece.Role.token) :
    (ss.filterMap Stretch.reading).map Prod.fst = ks := by
  induction ss generalizing ks with
  | nil =>
    obtain rfl := List.map_eq_nil_iff.1 h.symm
    rfl
  | cons s ss ih =>
    obtain ⟨k, ks, rfl, hk, hks⟩ := List.map_eq_cons_iff.1 h.symm
    have hs : s.reading = some (k, some (String.ofList s.text)) := by rw [Stretch.reading, ← hk]
    rw [List.filterMap_cons, hs, List.map_cons, ih hks.symm]

section Rows

variable {body rest : List Char} {ks : List Kind}

theorem isBlank_of_mem_margin (depth : Nat) :
    ∀ c ∈ margin depth, Dialect.dented.isBlank c = true := by
  intro c hc
  rw [List.eq_of_mem_replicate hc]
  rfl

/-- A row with a margin and a body holds a line of the depth of the margin. -/
theorem exists_holds (h : IsBody body ks) (hks : ks ≠ []) (depth : Nat) :
    ∃ c, Code.ofRow? (margin depth ++ body) = some c ∧ Holds c depth ks := by
  have hroles := h.roles [] .nil
  have hsolid := Dialect.solid_blanks (isBlank_of_mem_margin depth) body
  rw [List.append_nil, Dialect.solid_nil, List.map_nil, List.append_nil, ← hsolid] at hroles
  have hne : Dialect.dented.solid (margin depth ++ body) ≠ [] := by
    intro hnil
    rw [hnil] at hroles
    exact hks (List.map_eq_nil_iff.1 hroles.symm)
  refine ⟨_, Code.ofRow?_eq_some hne, ?_, ?_, map_fst_reading hroles⟩
  · intro s hs
    have hmem := List.mem_map_of_mem (f := Stretch.role) hs
    rw [hroles] at hmem
    obtain ⟨k, -, hk⟩ := List.mem_map.1 hmem
    rw [Stretch.reading, ← hk]
    rfl
  · show (margin depth ++ body).takeWhile _ = _
    rw [takeWhile_append_of_head h.starts]
    exact List.takeWhile_eq_self_iff.2 (isBlank_of_mem_margin depth)

/-- Where a row stands in front of a line feed, the text holds what the row holds. -/
theorem codes_indented {s : String} (hstays : ∀ c ∈ s.toList, isBreak c = false) (depth : Nat)
    (rest : List Char) :
    codes ((indented depth s).toList ++ rest) =
      (Code.ofRow? (margin depth ++ s.toList)).toList ++ codes rest := by
  have hrow : ∀ c ∈ margin depth ++ s.toList, isBreak c = false := by
    intro c hc
    rcases List.mem_append.1 hc with hc | hc
    · rw [List.eq_of_mem_replicate hc]
      rfl
    · exact hstays c hc
  have hends : EndsRow (margin depth ++ s.toList) ['\n'] := (EndsRow.nil (.inl rfl)).append hrow
  rw [toList_indented, List.append_assoc, hends.codes_append]

theorem codes_of_not_hasCode {l : Line} (hl : l.hasCode = false) (rest : List Char) :
    codes (l.text.toList ++ rest) = codes rest := by
  cases l with
  | blank =>
    have hcodes := (EndsRow.nil (.inl rfl)).codes_append rest
    rw [Code.ofRow?_eq_none (Dialect.solid_nil _)] at hcodes
    exact hcodes
  | comment depth number =>
    have htext : (s!"# step {number}").toList = '#' :: (" step ".toList ++
        (toString number).toList) := by
      show ("# step " ++ toString number).toList = _
      simp
    have hbreak : ∀ c ∈ " step ".toList ++ (toString number).toList, isBreak c = false := by
      intro c hc
      have hstep : ∀ c ∈ " step ".toList, isBreak c = false := by simp [isBreak]
      rcases List.mem_append.1 hc with hc | hc
      · exact hstep c hc
      · exact (ReadsAs.number number).stays c hc
    have htrail : IsTrail (margin depth ++ (s!"# step {number}").toList) := by
      rw [htext]
      refine .comment (fun c hc => by rw [List.eq_of_mem_replicate hc]; decide) fun c hc => ?_
      simpa [isBreak] using hbreak c hc
    have hstays : ∀ c ∈ (s!"# step {number}").toList, isBreak c = false := by
      intro c hc
      exact htrail.not_isBreak c (List.mem_append_right _ hc)
    rw [Line.text, codes_indented hstays, Code.ofRow?_eq_none htrail.solid_eq_nil]
    rfl
  | header => cases hl
  | statement => cases hl

/-- A row of code in front of a text. -/
theorem exists_codes_indented {s : String} (h : IsBody s.toList ks) (hks : ks ≠ []) (depth : Nat) :
    ∃ c, Holds c depth ks ∧
      ∀ rest, codes ((indented depth s).toList ++ rest) = c :: codes rest := by
  obtain ⟨c, hrow, hc⟩ := exists_holds h hks depth
  refine ⟨c, hc, fun rest => ?_⟩
  rw [codes_indented h.stays, hrow]
  rfl

end Rows

end Fixture

end OffsideBench

import OffsideBench.Fixture.Generate

/-!
# How programs grow

What the lines of a synthetic program are like, for every outcome of the draws. Each line of code
stands one block deeper than a header in front of it, and no deeper than any other line in front of
it; no header stands in the innermost block allowed. A step of the generator preserves that,
whatever it draws (`Draft.Grown.of_step`), and so does a run (`Draft.Grown.grow`).

Main statement: `nests_linesWith`.
-/

namespace OffsideBench.Fixture

open OffsideBench.Random (Dice Generator)

/-! ## Outcomes -/

/-- Whatever the draws are, what the process gives satisfies `P`. -/
def Gives {σ α : Type} (m : StateM σ α) (P : α → Prop) : Prop := ∀ s, P (m.run s).1

namespace Gives

variable {σ α β : Type} {m : StateM σ α} {f : α → StateM σ β} {P : α → Prop} {Q : β → Prop} {a : α}

theorem pure (h : P a) : Gives (Pure.pure a : StateM σ α) P := fun _ => h

theorem bind (h : Gives m P) (hf : ∀ a, P a → Gives (f a) Q) : Gives (m >>= f) Q :=
  fun s => hf _ (h s) (m.run s).2

theorem imp {P' : α → Prop} (h : Gives m P) (hP : ∀ a, P a → P' a) : Gives m P' :=
  fun s => hP _ (h s)

/-- Nothing is asked of what is drawn. -/
theorem any (m : StateM σ α) : Gives m fun _ => True := fun _ => trivial

end Gives

/-! ## What is drawn -/

/-- An expression that can be drawn. -/
structure Expr.Drawn (e : Expr) : Prop where
  left : e.left ∈ names
  operator : e.operator ∈ operators
  right : ∀ name, e.right = .name name → name ∈ names

/-- A header that can be drawn. -/
def Header.Drawn : Header → Prop
  | define name first second => name ∈ names ∧ first ∈ names ∧ second ∈ names
  | test e | loop e => e.Drawn
  | otherwise => True

/-- A statement that can be drawn, or the filler. -/
def Statement.Drawn : Statement → Prop
  | giveBack e => e.Drawn
  | print text value => text ∈ names ∧ value ∈ names
  | assign name e => name ∈ names ∧ e.Drawn
  | filler => True

section Draws

variable {σ : Type} (dice : Dice σ)

theorem gives_choose {α : Type} (xs : List α) (h : xs ≠ []) :
    Gives (dice.choose xs h) (· ∈ xs) :=
  (Gives.any _).bind fun _ _ => .pure (List.get_mem _ _)

theorem gives_drawName : Gives (drawName dice) (· ∈ names) := gives_choose dice _ _

theorem gives_drawExpr : Gives (drawExpr dice) Expr.Drawn := by
  refine (gives_drawName dice).bind fun left hleft => ?_
  refine (gives_choose dice _ _).bind fun operator hoperator => ?_
  refine (Gives.any _).bind fun b _ => ?_
  cases b with
  | true =>
    refine (Gives.any _).bind fun n _ => .pure ⟨hleft, hoperator, ?_⟩
    rintro name ⟨⟩
  | false =>
    refine (gives_drawName dice).bind fun right hright => .pure ⟨hleft, hoperator, ?_⟩
    rintro name ⟨⟩
    exact hright

theorem gives_drawHeader : Gives (drawHeader dice) Header.Drawn := by
  refine (Gives.any _).bind fun roll _ => ?_
  match roll with
  | 0 =>
    refine (gives_drawName dice).bind fun name hname => ?_
    refine (gives_drawName dice).bind fun first hfirst => ?_
    exact (gives_drawName dice).bind fun second hsecond => .pure ⟨hname, hfirst, hsecond⟩
  | 1 => exact (gives_drawExpr dice).bind fun e he => .pure he
  | 2 => exact (gives_drawExpr dice).bind fun e he => .pure he
  | 3 => exact .pure trivial

theorem gives_drawStatement : Gives (drawStatement dice) Statement.Drawn := by
  refine (Gives.any _).bind fun roll _ => ?_
  split
  · exact (gives_drawExpr dice).bind fun e he => .pure he
  · refine (gives_drawName dice).bind fun text htext => ?_
    exact (gives_drawName dice).bind fun value hvalue => .pure ⟨htext, hvalue⟩
  · refine (gives_drawName dice).bind fun name hname => ?_
    exact (gives_drawExpr dice).bind fun e he => .pure ⟨hname, he⟩

end Draws

/-! ## One step -/

/-- Whether there is code on a line. -/
def Line.hasCode : Line → Bool
  | blank | comment _ _ => false
  | header _ _ | statement _ _ => true

/-- What one step can do to a draft. -/
inductive Draft.Step (maxDepth : Nat) (d : Draft) : Draft → Prop where
  /-- The statement that a header asks for. -/
  | body (hb : d.needsBody = true) {s : Statement} (hs : s.Drawn) :
    Step maxDepth d { d.add (.statement d.depth s) with needsBody := false }
  /-- A header, maybe behind a line without code and outside of some blocks. -/
  | header (hb : d.needsBody = false) {skipped : Array Line}
    (hskip : ∀ l ∈ skipped, l.hasCode = false) {depth : Nat} (hdepth : depth ≤ d.depth)
    (hlt : depth < maxDepth) {h : Header} (hh : h.Drawn) :
    Step maxDepth d ⟨(d.lines ++ skipped).push (.header depth h), depth + 1, true⟩
  /-- A statement, maybe behind a line without code and outside of some blocks. -/
  | statement (hb : d.needsBody = false) {skipped : Array Line}
    (hskip : ∀ l ∈ skipped, l.hasCode = false) {depth : Nat} (hdepth : depth ≤ d.depth)
    {s : Statement} (hs : s.Drawn) :
    Step maxDepth d ⟨(d.lines ++ skipped).push (.statement depth s), depth, false⟩

section Step

variable {σ : Type} (dice : Dice σ) (d : Draft)

/-- A step begins with a line without code or with none. -/
theorem gives_drawFiller :
    Gives (drawFiller dice d) fun d' => ∃ skipped : Array Line,
      (∀ l ∈ skipped, l.hasCode = false) ∧ d' = { d with lines := d.lines ++ skipped } := by
  have hone : ∀ l : Line, l.hasCode = false → ∃ skipped : Array Line,
      (∀ l ∈ skipped, l.hasCode = false) ∧ d.add l = { d with lines := d.lines ++ skipped } := by
    intro l hl
    refine ⟨#[l], ?_, rfl⟩
    intro l' hl'
    obtain rfl : l' = l := by simpa using hl'
    exact hl
  refine (Gives.any _).bind fun roll _ => ?_
  split
  · exact .pure (hone _ rfl)
  split
  · exact (Gives.any _).bind fun n _ => .pure (hone _ rfl)
  · exact .pure ⟨#[], by simp, by simp⟩

/-- Leaving blocks keeps the rest of the draft. -/
theorem gives_drawDepth :
    Gives (drawDepth dice d) fun d' => ∃ depth ≤ d.depth, d' = { d with depth } := by
  unfold drawDepth
  split
  · refine (Gives.any _).bind fun b _ => ?_
    split
    · exact (Gives.any _).bind fun depth _ => .pure ⟨depth, Nat.le_of_lt depth.isLt, rfl⟩
    · exact .pure ⟨d.depth, Nat.le_refl _, rfl⟩
  · exact .pure ⟨d.depth, Nat.le_refl _, rfl⟩

theorem gives_addStatement :
    Gives (addStatement dice d) fun d' => ∃ s : Statement, s.Drawn ∧
      d' = { d.add (.statement d.depth s) with needsBody := false } :=
  (gives_drawStatement dice).bind fun s hs => .pure ⟨s, hs, rfl⟩

/-- What one step does is one of three things. -/
theorem gives_step (maxDepth : Nat) : Gives (step dice maxDepth d) (d.Step maxDepth) := by
  unfold step
  split
  · rename_i hb
    refine (gives_addStatement dice d).imp ?_
    rintro _ ⟨t, ht, rfl⟩
    exact .body hb ht
  · rename_i hb
    rw [Bool.not_eq_true] at hb
    refine (gives_drawFiller dice d).bind ?_
    rintro _ ⟨skipped, hskip, rfl⟩
    refine (gives_drawDepth dice _).bind ?_
    rintro _ ⟨depth, hdepth, rfl⟩
    have hstatement : Gives (addStatement dice { d with lines := d.lines ++ skipped, depth })
        (d.Step maxDepth) := by
      refine (gives_addStatement dice _).imp ?_
      rintro _ ⟨t, ht, rfl⟩
      exact .statement hb hskip hdepth ht
    by_cases hlt : depth < maxDepth
    · simp only [if_pos hlt]
      refine (Gives.any _).bind fun opens _ => ?_
      split
      · exact (gives_drawHeader dice).bind fun h hh => .pure (.header hb hskip hdepth hlt hh)
      · exact hstatement
    · simp only [if_neg hlt]
      exact hstatement

end Step

/-! ## Nesting -/

/-- Where a line of code may stand behind one that stands in `n` blocks and is a header or not. -/
def Follows (n : Nat) (header : Bool) (depth : Nat) : Prop :=
  if header then depth = n + 1 else depth ≤ n

/-- The lines `ls` lead from a line of code that stands in `n` blocks, and is a header or not, to
another one: each line has its place behind the one in front of it, and no header stands in `top`
blocks. -/
inductive Nests (top : Nat) : Nat → Bool → List Line → Nat → Bool → Prop where
  | nil {n : Nat} {b : Bool} : Nests top n b [] n b
  /-- A line without code has no say. -/
  | skip {n n' : Nat} {b b' : Bool} {l : Line} {ls : List Line} (hl : l.hasCode = false)
    (hrest : Nests top n b ls n' b') : Nests top n b (l :: ls) n' b'
  | header {n n' depth : Nat} {b b' : Bool} {h : Header} {ls : List Line}
    (hdepth : Follows n b depth) (hlt : depth < top) (hh : h.Drawn)
    (hrest : Nests top depth true ls n' b') : Nests top n b (.header depth h :: ls) n' b'
  | statement {n n' depth : Nat} {b b' : Bool} {s : Statement} {ls : List Line}
    (hdepth : Follows n b depth) (hs : s.Drawn)
    (hrest : Nests top depth false ls n' b') : Nests top n b (.statement depth s :: ls) n' b'

namespace Nests

variable {top n n' n'' : Nat} {b b' b'' : Bool} {ls ls' : List Line}

theorem append (h : Nests top n b ls n' b') (h' : Nests top n' b' ls' n'' b'') :
    Nests top n b (ls ++ ls') n'' b'' := by
  induction h with
  | nil => exact h'
  | skip hl _ ih => exact .skip hl (ih h')
  | header hdepth hlt hh _ ih => exact .header hdepth hlt hh (ih h')
  | statement hdepth hs _ ih => exact .statement hdepth hs (ih h')

theorem skipped (h : ∀ l ∈ ls, l.hasCode = false) : Nests top n b ls n b := by
  induction ls with
  | nil => exact .nil
  | cons l ls ih =>
    exact .skip (h l List.mem_cons_self) (ih fun l' hl' => h l' (List.mem_cons_of_mem _ hl'))

end Nests

/-! ## A whole run -/

/-- Whether a line opens a block. -/
def Line.isHeader : Line → Bool
  | header _ _ => true
  | blank | comment _ _ | statement _ _ => false

/-- Whether the last line of a draft is a header. -/
def Draft.endsInHeader (d : Draft) : Bool := d.lines.back?.any Line.isHeader

theorem Draft.endsInHeader_push (lines : Array Line) (l : Line) (depth : Nat) (b : Bool) :
    (Draft.mk (lines.push l) depth b).endsInHeader = l.isHeader := by
  rw [endsInHeader, Array.back?_push]
  rfl

/-- A draft after `k` steps. -/
structure Draft.Grown (top k : Nat) (d : Draft) : Prop where
  nests : ∃ n, Nests top 0 false d.lines.toList n d.needsBody ∧
    d.depth = if d.needsBody then n + 1 else n
  depth_le : d.depth ≤ k
  count : d.lines.toList.countP Line.hasCode = k
  endsInHeader : d.endsInHeader = d.needsBody

namespace Draft

variable {top maxDepth k : Nat} {d d' : Draft}

theorem Grown.start (top : Nat) : Grown top 0 {} := ⟨⟨0, .nil, rfl⟩, Nat.le_refl 0, rfl, rfl⟩

/-- One step preserves how lines are nested. -/
theorem Grown.of_step (hd : d.Grown top k) (htop : ∀ depth ≤ k, depth < maxDepth → depth < top)
    (h : d.Step maxDepth d') : d'.Grown top (k + 1) := by
  obtain ⟨n, hnests, hdepth⟩ := hd.nests
  have hk := hd.depth_le
  -- Lines without code that a step begins with leave the draft as it is.
  have hskipped : d.needsBody = false → ∀ {skipped : Array Line},
      (∀ l ∈ skipped, l.hasCode = false) →
      Nests top 0 false (d.lines ++ skipped).toList d.depth false ∧
        (d.lines ++ skipped).toList.countP Line.hasCode = k := by
    intro hb skipped hskip
    rw [hb] at hnests hdepth
    have hskip : ∀ l ∈ skipped.toList, l.hasCode = false := fun l hl =>
      hskip l (Array.mem_def.2 hl)
    rw [Array.toList_append, List.countP_append, hd.count, hdepth]
    refine ⟨hnests.append (.skipped hskip), ?_⟩
    rw [List.countP_eq_zero.2 fun l hl => by simp [hskip l hl], Nat.add_zero]
  cases h with
  | @body hb s hs =>
    rw [hb] at hnests hdepth
    refine ⟨⟨d.depth, ?_, rfl⟩, Nat.le_succ_of_le hk, ?_, endsInHeader_push ..⟩
    · show Nests top 0 false (d.lines.push _).toList _ _
      rw [Array.toList_push]
      exact hnests.append (.statement hdepth hs .nil)
    · show (d.lines.push _).toList.countP _ = _
      rw [Array.toList_push, List.countP_append, hd.count]
      rfl
  | @header hb skipped hskip depth hle hlt h hh =>
    obtain ⟨hlines, hcount⟩ := hskipped hb hskip
    have hdk : depth ≤ k := Nat.le_trans hle hk
    refine ⟨⟨depth, ?_, rfl⟩, Nat.succ_le_succ hdk, ?_, endsInHeader_push ..⟩
    · rw [Array.toList_push]
      exact hlines.append (.header hle (htop depth hdk hlt) hh .nil)
    · rw [Array.toList_push, List.countP_append, hcount]
      rfl
  | @statement hb skipped hskip depth hle s hs =>
    obtain ⟨hlines, hcount⟩ := hskipped hb hskip
    have hdk : depth ≤ k := Nat.le_trans hle hk
    refine ⟨⟨depth, ?_, rfl⟩, Nat.le_succ_of_le hdk, ?_, endsInHeader_push ..⟩
    · rw [Array.toList_push]
      exact hlines.append (.statement hle hs .nil)
    · rw [Array.toList_push, List.countP_append, hcount]
      rfl

/-- So does a run. -/
theorem Grown.grow {σ : Type} (dice : Dice σ) (maxDepth : Nat) (hd : d.Grown top k) (n : Nat)
    (htop : ∀ depth < k + n, depth < maxDepth → depth < top) :
    Gives (grow dice maxDepth n d) (Grown top (k + n)) := by
  induction n generalizing d k with
  | zero => exact .pure hd
  | succ n ih =>
    refine (gives_step dice d maxDepth).bind fun d' hstep => ?_
    have hd' := hd.of_step (fun depth hdepth => htop depth (by omega)) hstep
    have hrest := ih hd' fun depth hlt => htop depth (by omega)
    rw [Nat.add_right_comm] at hrest
    exact hrest

/-- A finished draft ends in no header, since one is followed by the filler. -/
theorem Grown.finish (hd : d.Grown top k) :
    (∃ n, Nests top 0 false d.finish n false) ∧
      d.finish.countP Line.hasCode = k + if d.endsInHeader then 1 else 0 := by
  obtain ⟨n, hnests, hdepth⟩ := hd.nests
  rw [hd.endsInHeader, Draft.finish]
  cases hb : d.needsBody with
  | false =>
    rw [hb] at hnests
    exact ⟨⟨n, hnests⟩, hd.count⟩
  | true =>
    rw [hb] at hnests hdepth
    show (∃ n, Nests top 0 false (d.lines.push _).toList n false) ∧
      (d.lines.push _).toList.countP _ = _
    rw [Array.toList_push, List.countP_append, hd.count]
    exact ⟨⟨d.depth, hnests.append (.statement hdepth (s := .filler) trivial .nil)⟩, rfl⟩

end Draft

/-- The draft that any dice give, starting in the state `s`, before it is finished. -/
def draftWith {σ : Type} (dice : Dice σ) (s : σ) (statements maxDepth : Nat) : Draft :=
  ((grow dice maxDepth statements {}).run s).1

/-- The lines of a program nest. -/
theorem nests_linesWith {σ : Type} (dice : Dice σ) (s : σ) (statements maxDepth : Nat) :
    (∃ n, Nests (min statements maxDepth) 0 false (linesWith dice s statements maxDepth) n false) ∧
      (linesWith dice s statements maxDepth).countP Line.hasCode =
        statements + if (draftWith dice s statements maxDepth).endsInHeader then 1 else 0 := by
  have hgrown := (Draft.Grown.start (min statements maxDepth)).grow dice maxDepth statements
    (fun depth hlt hlt' => Nat.lt_min.2 ⟨Nat.zero_add statements ▸ hlt, hlt'⟩) s
  rw [Nat.zero_add] at hgrown
  exact hgrown.finish

end OffsideBench.Fixture

import Mathlib.Data.Finset.Card
import Mathlib.Data.Finset.Dedup
import OffsideBench.Proofs.CodeLines
import OffsideBench.Proofs.Layout.Calls

/-!
# Widths decide

Which lines of code have their place, how many blocks are open on each of them, and where the first
fault is, can be read off the indentation widths alone. The blocks that are open on a line, together
with the first column, are the least widths of the rows of lines that end with it (`suffixMinima`);
that is the invariant of the machine (`Layout.Tracks`), and each line that has its place keeps it
(`Layout.Tracks.turn`).

Main statement: `Layout.widths_decide`.
-/

namespace OffsideBench

open Token (Kind)

/-! ## Suffix minima -/

/-- The least widths of the rows of lines that end with the last line. -/
def suffixMinima (ws : List Nat) : Finset Nat := (ws.tails.filterMap List.min?).toFinset

/-- Whether a line of width `w` has its place behind lines of widths `ws`: the first line starts at
the first column, a later one is wider than the line before it or returns to a width that is
open. -/
def Fits (ws : List Nat) (w : Nat) : Prop :=
  match ws.getLast? with
  | none => w = 0
  | some v => v < w ∨ w ∈ suffixMinima ws

instance (ws : List Nat) (w : Nat) : Decidable (Fits ws w) :=
  match h : ws.getLast? with
  | none => decidable_of_iff (w = 0) (by rw [Fits, h])
  | some v => decidable_of_iff (v < w ∨ w ∈ suffixMinima ws) (by rw [Fits, h])

theorem mem_suffixMinima {ws : List Nat} {m : Nat} :
    m ∈ suffixMinima ws ↔ ∃ vs, vs <:+ ws ∧ m ∈ vs ∧ ∀ v ∈ vs, m ≤ v := by
  rw [suffixMinima, List.mem_toFinset, List.mem_filterMap]
  constructor
  · rintro ⟨vs, hvs, hm⟩
    exact ⟨vs, (List.mem_tails _ _).1 hvs, List.min?_eq_some_iff.1 hm⟩
  · rintro ⟨vs, hvs, hm⟩
    exact ⟨vs, (List.mem_tails _ _).2 hvs, List.min?_eq_some_iff.2 hm⟩

/-- A further line keeps the minima that are below it, and adds its own width. -/
theorem mem_suffixMinima_concat {ws : List Nat} {w m : Nat} :
    m ∈ suffixMinima (ws ++ [w]) ↔ m = w ∨ m ∈ suffixMinima ws ∧ m < w := by
  rw [mem_suffixMinima, mem_suffixMinima]
  constructor
  · rintro ⟨vs, hvs, hm, hle⟩
    rcases List.suffix_concat_iff.1 hvs with rfl | ⟨us, rfl, hus⟩
    · cases hm
    · have hw : m ≤ w := hle w (by simp)
      rcases List.mem_append.1 hm with hm | hm
      · rcases hw.lt_or_eq with hw | hw
        · exact .inr ⟨⟨us, hus, hm, fun v hv => hle v (List.mem_append_left _ hv)⟩, hw⟩
        · exact .inl hw
      · exact .inl (List.mem_singleton.1 hm)
  · rintro (rfl | ⟨⟨us, hus, hm, hle⟩, hw⟩)
    · exact ⟨[m], List.suffix_append ws [m], List.mem_singleton_self m, by simp⟩
    · refine ⟨us ++ [w], List.suffix_concat_iff.2 (.inr ⟨us, rfl, hus⟩),
        List.mem_append_left _ hm, ?_⟩
      intro v hv
      rcases List.mem_append.1 hv with hv | hv
      · exact hle v hv
      · rw [List.mem_singleton.1 hv]
        exact hw.le

/-- Whether lines of widths `vs` have their places one after another behind lines of widths
`ws`. -/
def AllFit (ws : List Nat) : List Nat → Prop
  | [] => True
  | v :: vs => Fits ws v ∧ AllFit (ws ++ [v]) vs

theorem allFit_iff {ws vs : List Nat} :
    AllFit ws vs ↔ ∀ (i : Nat) (hi : i < vs.length), Fits (ws ++ vs.take i) vs[i] := by
  induction vs generalizing ws with
  | nil => exact ⟨fun _ i hi => absurd hi (Nat.not_lt_zero i), fun _ => trivial⟩
  | cons v vs ih =>
    rw [AllFit, ih]
    constructor
    · rintro ⟨hv, hvs⟩ i hi
      cases i with
      | zero =>
        rw [List.take_zero, List.append_nil]
        exact hv
      | succ i =>
        have h := hvs i (Nat.lt_of_succ_lt_succ hi)
        rw [List.append_assoc] at h
        exact h
    · intro h
      constructor
      · have hv := h 0 (Nat.succ_pos _)
        rw [List.take_zero, List.append_nil] at hv
        exact hv
      · intro i hi
        rw [List.append_assoc]
        exact h (i + 1) (Nat.succ_lt_succ hi)

/-- Lines have their places when all of them up to each one have. -/
theorem allFit_take {ws : List Nat} {i : Nat}
    (h : ∀ (j : Nat) (hj : j < ws.length), j < i → Fits (ws.take j) ws[j]) :
    AllFit [] (ws.take i) := by
  refine allFit_iff.2 ?_
  intro j hj
  rw [List.length_take, Nat.lt_min] at hj
  have hfit := h j hj.2 hj.1
  rw [List.nil_append, List.take_take, Nat.min_eq_left hj.1.le, List.getElem_take]
  exact hfit

namespace Layout

/-! ## The widths that are open -/

/-- The widths that a line may return to: those of the open blocks, innermost first, and the first
column. -/
def openWidths (widths : List UInt32) : List Nat := widths.map UInt32.toNat ++ [0]

theorem head?_openWidths (widths : List UInt32) :
    (openWidths widths).head? = some (widths.headD 0).toNat := by cases widths <;> rfl

theorem openWidths_cons (w : UInt32) (widths : List UInt32) :
    openWidths (w :: widths) = w.toNat :: openWidths widths := rfl

section Sorted

variable {widths : List UInt32} {w : UInt32} {m : Nat}

/-- No width is above that of the innermost block. -/
theorem le_headD (hs : (openWidths widths).Pairwise (· > ·)) (hm : m ∈ openWidths widths) :
    m ≤ (widths.headD 0).toNat := by
  cases widths with
  | nil =>
    rw [List.mem_singleton.1 hm]
    exact Nat.zero_le _
  | cons v widths =>
    rcases List.mem_cons.1 hm with rfl | hm
    · exact Nat.le_refl _
    · exact ((List.pairwise_cons.1 hs).1 m hm).le

theorem sorted_closeTo (hs : (openWidths widths).Pairwise (· > ·)) :
    (openWidths (closeTo w widths)).Pairwise (· > ·) := by
  fun_induction closeTo w widths with
  | case1 => exact hs
  | case2 v widths _ ih => exact ih (List.pairwise_cons.1 hs).2
  | case3 => exact hs

/-- The blocks that are at most as wide as the line are left. -/
theorem mem_closeTo (hs : (openWidths widths).Pairwise (· > ·)) :
    m ∈ openWidths (closeTo w widths) ↔ m ∈ openWidths widths ∧ m ≤ w.toNat := by
  fun_induction closeTo w widths with
  | case1 =>
    constructor
    · intro hm
      refine ⟨hm, ?_⟩
      rw [List.mem_singleton.1 hm]
      exact Nat.zero_le _
    · exact And.left
  | case2 v widths hv ih =>
    have hv := UInt32.lt_iff_toNat_lt.1 hv
    rw [ih (List.pairwise_cons.1 hs).2, openWidths_cons, List.mem_cons]
    constructor
    · rintro ⟨hm, hle⟩
      exact ⟨.inr hm, hle⟩
    · rintro ⟨rfl | hm, hle⟩
      · omega
      · exact ⟨hm, hle⟩
  | case3 v widths hv =>
    have hv := Nat.le_of_not_lt (mt UInt32.lt_iff_toNat_lt.2 hv)
    constructor
    · intro hm
      exact ⟨hm, (le_headD hs hm).trans hv⟩
    · exact And.left

/-- A line returns to an open width just when that is the innermost one left. -/
theorem eq_headD_closeTo_iff (hs : (openWidths widths).Pairwise (· > ·)) :
    w = (closeTo w widths).headD 0 ↔ w.toNat ∈ openWidths widths := by
  have hhead : ((closeTo w widths).headD 0).toNat ∈ openWidths (closeTo w widths) :=
    List.mem_of_head? (head?_openWidths _)
  constructor
  · intro e
    rw [← e] at hhead
    exact ((mem_closeTo hs).1 hhead).1
  · intro hw
    have hle := ((mem_closeTo hs).1 hhead).2
    have hge := le_headD (sorted_closeTo hs) ((mem_closeTo hs).2 ⟨hw, Nat.le_refl _⟩)
    exact UInt32.toNat_inj.1 (Nat.le_antisymm hge hle)

end Sorted

/-- What the machine knows of the lines behind it: the widths that a line may return to are the
suffix minima, each once, and the last line has the width of the innermost block. -/
structure Tracks (ws : List Nat) (widths : List UInt32) : Prop where
  sorted : (openWidths widths).Pairwise (· > ·)
  mem_iff : ∀ m, m ∈ suffixMinima ws ↔ m ∈ openWidths widths
  last : ws.getLast? = some (widths.headD 0).toNat

namespace Tracks

variable {ws : List Nat} {widths : List UInt32} {n : Lexeme}

/-- Behind a first line at the first column no block is open. -/
theorem first : Tracks [0] [] := by
  refine ⟨List.pairwise_singleton _ _, ?_, rfl⟩
  intro m
  rw [← List.nil_append [0], mem_suffixMinima_concat, openWidths, List.map_nil]
  simp

theorem card (h : Tracks ws widths) : (suffixMinima ws).card = widths.length + 1 := by
  have hset : suffixMinima ws = (openWidths widths).toFinset := by
    ext m
    rw [h.mem_iff, List.mem_toFinset]
  have hnodup : (openWidths widths).Nodup := h.sorted.imp fun hlt => hlt.ne'
  rw [hset, List.toFinset_card_of_nodup hnodup, openWidths, List.length_append, List.length_map]
  rfl

theorem fits_iff (h : Tracks ws widths) {w : UInt32} :
    Fits ws w.toNat ↔ widths.headD 0 < w ∨ w.toNat ∈ openWidths widths := by
  rw [Fits, h.last, ← h.mem_iff, UInt32.lt_iff_toNat_lt]

/-- A line that has its place leaves the machine with the right widths. -/
theorem turn_of_fits (h : Tracks ws widths) (hfit : Fits ws n.stop.width.toNat) :
    ∃ ts widths', turn widths n = .ok (ts, widths') ∧
      Tracks (ws ++ [n.stop.width.toNat]) widths' := by
  by_cases hlt : widths.headD 0 < n.stop.width
  · refine ⟨_, _, if_pos hlt, ?_, ?_, by simp⟩
    · refine List.pairwise_cons.2 ⟨?_, h.sorted⟩
      intro m hm
      exact (le_headD h.sorted hm).trans_lt (UInt32.lt_iff_toNat_lt.1 hlt)
    · intro m
      rw [mem_suffixMinima_concat, h.mem_iff, openWidths_cons, List.mem_cons]
      constructor
      · rintro (rfl | ⟨hm, -⟩)
        · exact .inl rfl
        · exact .inr hm
      · rintro (rfl | hm)
        · exact .inl rfl
        · exact .inr ⟨hm, (le_headD h.sorted hm).trans_lt (UInt32.lt_iff_toNat_lt.1 hlt)⟩
  · have hmem := (h.fits_iff.1 hfit).resolve_left hlt
    have heq := (eq_headD_closeTo_iff h.sorted).2 hmem
    refine ⟨_, _, (if_neg hlt).trans (if_pos heq), sorted_closeTo h.sorted, ?_, ?_⟩
    · intro m
      rw [mem_suffixMinima_concat, h.mem_iff, mem_closeTo h.sorted, Nat.le_iff_lt_or_eq]
      constructor
      · rintro (rfl | ⟨hm, hlt⟩)
        · exact ⟨hmem, .inr rfl⟩
        · exact ⟨hm, .inl hlt⟩
      · rintro ⟨hm, hlt | rfl⟩
        · exact .inr ⟨hm, hlt⟩
        · exact .inl rfl
    · rw [← heq]
      simp

/-- A line that has none is a fault. -/
theorem turn_of_not_fits (h : Tracks ws widths) (hfit : ¬ Fits ws n.stop.width.toNat) :
    turn widths n = .error (.inconsistentDedent n.stop.offset n.stop.width) := by
  rw [h.fits_iff, ← eq_headD_closeTo_iff h.sorted, not_or] at hfit
  exact (if_neg hfit.1).trans (if_neg hfit.2)

end Tracks

/-! ## Lines that have their place -/

theorem filter_turn {widths widths' : List UInt32} {n : Lexeme} {ts : List Token}
    (hk : n.kind = .newline) (h : turn widths n = .ok (ts, widths')) :
    ts.filter (·.kind.isContent) = [] := by
  refine List.filter_eq_nil_iff.2 ?_
  intro t ht
  rcases turn_cases h with ⟨-, rfl, -⟩ | ⟨-, rfl, -⟩
  · rw [List.mem_singleton.1 ht]
    exact Bool.false_ne_true
  · rcases List.mem_cons.1 ht with rfl | ht
    · rw [Lexeme.token, hk]
      exact Bool.false_ne_true
    · rw [List.eq_of_mem_replicate ht]
      exact Bool.false_ne_true

/-- A turn hands out an `indent` for each block that it opens and a `dedent` for each one that it
closes. -/
theorem count_turn {widths widths' : List UInt32} {n : Lexeme} {ts : List Token}
    (hk : n.kind = .newline) (h : turn widths n = .ok (ts, widths')) :
    (ts.map Token.kind).count .indent + widths.length =
      (ts.map Token.kind).count .dedent + widths'.length := by
  rcases turn_cases h with ⟨-, rfl, rfl⟩ | ⟨-, rfl, hw, -⟩
  · simp
    omega
  · have hle := closeTo_length_le n.stop.width widths
    rw [← hw] at hle
    have hn : n.token.kind = .newline := hk
    simp only [List.map_cons, List.map_replicate, hn, Token.empty, List.count_cons,
      List.count_replicate]
    simp
    omega

/-- Lines of code have their places behind a line on which blocks of some widths are open: the
widths that are open on the last of them, and the tokens that are handed out. -/
inductive Passes : List UInt32 → List Line → List UInt32 → List Token → Prop where
  /-- No lines. -/
  | nil (widths : List UInt32) : Passes widths [] widths []
  /-- A line that has its place, and further lines. -/
  | cons {widths widths' widths'' : List UInt32} {l : Line} {ls : List Line} {n : Lexeme}
      {ts us : List Token} (hn : l.newline? = some n) (hk : n.kind = .newline)
      (hturn : turn widths n = .ok (ts, widths')) (h : Passes widths' ls widths'' us) :
      Passes widths (l :: ls) widths'' (ts ++ l.tokens ++ us)

namespace Passes

variable {finish : Position} {widths widths' : List UInt32} {ls : List Line} {us : List Token}

/-- Lines that have their places are handed out in front of the rest. -/
theorem outline_append (h : Passes widths ls widths' us) (rest : List Line) :
    outline finish widths (ls ++ rest) = (outline finish widths' rest).behind us := by
  induction h with
  | nil => rfl
  | cons hn _ hturn h ih =>
    rw [List.cons_append, outline_of_turn hn hturn, ih, Drain.behind_behind]

/-- The content that is handed out is that of the lines. -/
theorem filter_eq (h : Passes widths ls widths' us) (hls : ∀ l ∈ ls, IsLine l.tokens) :
    us.filter (·.kind.isContent) = (ls.map Line.tokens).flatten := by
  induction h with
  | nil => rfl
  | cons hn hk hturn h ih =>
    have hl := (hls _ List.mem_cons_self).2
    rw [List.filter_append, List.filter_append, filter_turn hk hturn, List.nil_append,
      List.filter_eq_self.2 hl, ih fun m hm => hls m (List.mem_cons_of_mem _ hm), List.map_cons,
      List.flatten_cons]

/-- An `indent` is handed out for each block that is opened and a `dedent` for each one that is
closed. -/
theorem count_indent (h : Passes widths ls widths' us) (hls : ∀ l ∈ ls, IsLine l.tokens) :
    (us.map Token.kind).count .indent + widths.length =
      (us.map Token.kind).count .dedent + widths'.length := by
  induction h with
  | nil => rfl
  | cons hn hk hturn h ih =>
    have hl := hls _ List.mem_cons_self
    have hts := count_turn hk hturn
    have hus := ih fun m hm => hls m (List.mem_cons_of_mem _ hm)
    simp only [List.map_append, List.count_append, hl.count_kind (k := .indent) rfl,
      hl.count_kind (k := .dedent) rfl]
    omega

/-- Lines of the right widths have their places. -/
theorem exists_of_allFit {ws : List Nat} (h : Tracks ws widths)
    (hls : ∀ l ∈ ls, ∃ n, l.newline? = some n ∧ n.kind = .newline)
    (hfit : AllFit ws (ls.map fun l => l.indentation.toNat)) :
    ∃ widths' us, Passes widths ls widths' us ∧
      Tracks (ws ++ ls.map fun l => l.indentation.toNat) widths' := by
  induction ls generalizing ws widths with
  | nil =>
    refine ⟨widths, [], .nil widths, ?_⟩
    rw [List.map_nil, List.append_nil]
    exact h
  | cons l ls ih =>
    obtain ⟨n, hn, hk⟩ := hls l List.mem_cons_self
    have hwidth : l.indentation = n.stop.width := by rw [Line.indentation, hn]
    rw [List.map_cons, hwidth] at hfit ⊢
    obtain ⟨ts, widths₁, hturn, htracks⟩ := h.turn_of_fits hfit.1
    obtain ⟨widths', us, hpass, hlast⟩ :=
      ih htracks (fun m hm => hls m (List.mem_cons_of_mem _ hm)) hfit.2
    refine ⟨widths', _, .cons hn hk hturn hpass, ?_⟩
    rw [List.append_assoc] at hlast
    exact hlast

end Passes

section Text

variable (finish : Position) {l : Line} {ls : List Line} {i : Nat}

theorem take_succ_widths : (Line.widths (l :: ls)).take (i + 1) =
    l.first.start.width.toNat :: (ls.take i).map fun m => m.indentation.toNat := by
  rw [Line.widths, List.take_succ_cons, List.map_take]

theorem getElem_succ_widths (hi : i + 1 < (Line.widths (l :: ls)).length) (hi' : i < ls.length)
    {n : Lexeme} (hn : ls[i].newline? = some n) :
    (Line.widths (l :: ls))[i + 1] = n.stop.width.toNat := by
  simp only [Line.widths, List.getElem_cons_succ, List.getElem_map, Line.indentation, hn]

/-- A first line at the first column is handed out in front of the others. -/
theorem outlineText_cons (h : l.first.start.width.toNat = 0) :
    outlineText finish (l :: ls) = (outline finish [] ls).behind l.tokens := by
  have hwidth : ¬ 0 < l.first.start.width := by
    rw [UInt32.lt_iff_toNat_lt, h]
    exact Nat.lt_irrefl 0
  rw [outlineText, if_neg hwidth]

variable (hls : ∀ m ∈ l :: ls, IsLine m.tokens)
  (hn : ∀ m ∈ ls, ∃ n, m.newline? = some n ∧ n.kind = .newline)

include hls hn

/-- Lines that have their places are handed out, and the machine tracks their widths. -/
theorem exists_drain_take (hfit : AllFit [] ((Line.widths (l :: ls)).take (i + 1))) :
    ∃ widths us, Tracks ((Line.widths (l :: ls)).take (i + 1)) widths ∧
      outlineText finish (l :: ls) = (outline finish widths (ls.drop i)).behind us ∧
      us.filter (·.kind.isContent) = (((l :: ls).take (i + 1)).map Line.tokens).flatten ∧
      (us.map Token.kind).count .indent = (us.map Token.kind).count .dedent + widths.length := by
  rw [take_succ_widths] at hfit ⊢
  obtain ⟨hzero, hfit⟩ := hfit
  change l.first.start.width.toNat = 0 at hzero
  rw [hzero] at hfit ⊢
  obtain ⟨widths, us, hpass, htracks⟩ := Passes.exists_of_allFit Tracks.first
    (fun m hm => hn m (List.mem_of_mem_take hm)) hfit
  have hl := hls l List.mem_cons_self
  have htake : ∀ m ∈ ls.take i, IsLine m.tokens := fun m hm =>
    hls m (List.mem_cons_of_mem _ (List.mem_of_mem_take hm))
  have hcount := hpass.count_indent htake
  refine ⟨widths, l.tokens ++ us, htracks, ?_, ?_, ?_⟩
  · rw [outlineText_cons finish hzero]
    conv => lhs; rw [← List.take_append_drop i ls]
    rw [hpass.outline_append, Drain.behind_behind]
  · rw [List.filter_append, List.filter_eq_self.2 hl.2, hpass.filter_eq htake]
    rfl
  · simp only [List.map_append, List.count_append, hl.count_kind (k := .indent) rfl,
      hl.count_kind (k := .dedent) rfl]
    simp only [List.length_nil] at hcount
    omega

/-- When all lines have their places the text is read to its end. -/
theorem finish_outlineText_of_fits
    (hfit : ∀ (j : Nat) (hj : j < (Line.widths (l :: ls)).length),
      Fits ((Line.widths (l :: ls)).take j) (Line.widths (l :: ls))[j]) :
    (outlineText finish (l :: ls)).finish = .ok (Lexeme.eof finish).token := by
  have htake := allFit_take (i := ls.length + 1) fun j hj _ => hfit j hj
  obtain ⟨widths, us, -, hdrain, -⟩ := exists_drain_take finish hls hn htake
  rw [hdrain, List.drop_length]
  rfl

/-- The first line without a place is the fault. -/
theorem outlineText_of_not_fits (hi : i < (Line.widths (l :: ls)).length)
    (hfit : ∀ (j : Nat) (hj : j < (Line.widths (l :: ls)).length), j < i →
      Fits ((Line.widths (l :: ls)).take j) (Line.widths (l :: ls))[j])
    (hnot : ¬ Fits ((Line.widths (l :: ls)).take i) (Line.widths (l :: ls))[i]) :
    (outlineText finish (l :: ls)).tokens.filter (·.kind.isContent) =
        (((l :: ls).take i).map Line.tokens).flatten ∧
      ∃ offset width, width.toNat = (Line.widths (l :: ls))[i] ∧
        (outlineText finish (l :: ls)).finish =
          .error (if i = 0 then .unexpectedIndent offset width
            else .inconsistentDedent offset width) := by
  cases i with
  | zero =>
    have hwidth : 0 < l.first.start.width := by
      rw [UInt32.lt_iff_toNat_lt]
      exact Nat.pos_of_ne_zero hnot
    rw [outlineText, if_pos hwidth]
    exact ⟨rfl, _, _, rfl, rfl⟩
  | succ i =>
    obtain ⟨widths, us, htracks, hdrain, hcontent, -⟩ :=
      exists_drain_take finish hls hn (allFit_take hfit)
    have hi' : i < ls.length := by
      rw [Line.widths, List.length_cons, List.length_map] at hi
      omega
    obtain ⟨n, hnl, hk⟩ := hn ls[i] (List.getElem_mem hi')
    rw [getElem_succ_widths hi hi' hnl] at hnot ⊢
    have hrest : outline finish widths (ls[i] :: ls.drop (i + 1)) = ⟨[], .error _⟩ :=
      outline_of_turn_error hnl (htracks.turn_of_not_fits hnot) _
    rw [← List.drop_eq_getElem_cons hi'] at hrest
    rw [hdrain, hrest, Drain.behind, List.append_nil]
    exact ⟨hcontent, n.stop.offset, n.stop.width, rfl, rfl⟩

/-- In front of a line with its place stands the content of the lines before it, and one block fewer
is open than there are suffix minima. -/
theorem exists_before_of_fits (hi : i < (l :: ls).length)
    (hfit : ∀ (j : Nat) (hj : j < (Line.widths (l :: ls)).length),
      Fits ((Line.widths (l :: ls)).take j) (Line.widths (l :: ls))[j]) :
    ∃ before after,
      (outlineText finish (l :: ls)).tokens = before ++ (l :: ls)[i].first.token :: after ∧
      before.filter (·.kind.isContent) = (((l :: ls).take i).map Line.tokens).flatten ∧
      (before.map Token.kind).count .indent = (before.map Token.kind).count .dedent +
        ((suffixMinima ((Line.widths (l :: ls)).take (i + 1))).card - 1) := by
  cases i with
  | zero =>
    have hzero : l.first.start.width.toNat = 0 := hfit 0 (Nat.succ_pos _)
    refine ⟨[], l.others.map Lexeme.token ++ (outline finish [] ls).tokens, ?_, rfl, ?_⟩
    · rw [outlineText_cons finish hzero]
      rfl
    · rw [take_succ_widths, hzero, List.take_zero]
      show 0 = 0 + ((suffixMinima [0]).card - 1)
      rw [Tracks.first.card]
      rfl
  | succ i =>
    obtain ⟨widths, us, htracks, hdrain, hcontent, hcount⟩ := exists_drain_take finish (i := i) hls
      hn (allFit_take fun j hj _ => hfit j hj)
    have hi : i < ls.length := Nat.lt_of_succ_lt_succ hi
    obtain ⟨n, hnl, hk⟩ := hn ls[i] (List.getElem_mem hi)
    have hlen : i + 1 < (Line.widths (l :: ls)).length := by
      rw [Line.widths, List.length_cons, List.length_map]
      omega
    have hwidth := getElem_succ_widths hlen hi hnl
    have hplace := hfit (i + 1) hlen
    rw [hwidth] at hplace
    obtain ⟨ts, widths', hturn, hnext⟩ := htracks.turn_of_fits hplace
    rw [← hwidth, List.take_concat_get' _ _ hlen] at hnext
    have hrest : outline finish widths (ls[i] :: ls.drop (i + 1)) = _ :=
      outline_of_turn hnl hturn _
    rw [← List.drop_eq_getElem_cons hi] at hrest
    refine ⟨us ++ ts, ls[i].others.map Lexeme.token ++ (outline finish widths'
      (ls.drop (i + 1))).tokens, ?_, ?_, ?_⟩
    · rw [hdrain, hrest]
      simp [Drain.behind, Line.tokens, Line.lexemes]
    · rw [List.filter_append, filter_turn hk hturn, List.append_nil, hcontent]
    · have hts := count_turn hk hturn
      rw [hnext.card]
      simp only [List.map_append, List.count_append]
      omega

end Text

end Layout

/-- **Widths decide.** Take a text that is read without a fault and whose indentation widths do not
wrap around. Its stream with structure is drained to the end of the text just when each line of code
has its place behind the lines before it. Then, in front of each line, one block fewer is open than
there are suffix minima up to that line. Otherwise the first line without a place is the fault, and
names its width; what is handed out before is the content of the lines before it. -/
theorem Layout.widths_decide {source : String} {t : Token}
    (hraw : (Variant.rawDented.drain source).finish = .ok t)
    (hwidth : ∀ w ∈ indentWidths source, w < UInt32.size) :
    ((∃ u, u.kind = .eof ∧ (Variant.dented.drain source).finish = .ok u) ↔
      ∀ (i : Nat) (hi : i < (indentWidths source).length),
        Fits ((indentWidths source).take i) (indentWidths source)[i]) ∧
    ((∃ u, (Variant.dented.drain source).finish = .ok u) →
      ∀ (i : Nat) (hi : i < (lineHeads source).length), ∃ before after,
        (Variant.dented.drain source).tokens = before ++ (lineHeads source)[i] :: after ∧
        before.filter (·.kind.isContent) = ((codeLines source).take i).flatten ∧
        (before.map Token.kind).count .indent = (before.map Token.kind).count .dedent +
          ((suffixMinima ((indentWidths source).take (i + 1))).card - 1)) ∧
    ∀ (i : Nat) (hi : i < (indentWidths source).length),
      (∀ (j : Nat) (hj : j < (indentWidths source).length), j < i →
        Fits ((indentWidths source).take j) (indentWidths source)[j]) →
      ¬ Fits ((indentWidths source).take i) (indentWidths source)[i] →
      (Variant.dented.drain source).tokens.filter (·.kind.isContent) =
          ((codeLines source).take i).flatten ∧
        ∃ offset width, width.toNat = (indentWidths source)[i] ∧
          (Variant.dented.drain source).finish =
            .error (if i = 0 then .unexpectedIndent offset width
              else .inconsistentDedent offset width) := by
  have heof : (∃ u : Token, u.kind = .eof ∧ (Variant.dented.drain source).finish = .ok u) ↔
      ∃ u, (Variant.dented.drain source).finish = .ok u :=
    ⟨fun ⟨u, _, h⟩ => ⟨u, h⟩, fun ⟨u, h⟩ => ⟨u, Reader.kind_of_drain_finish h, h⟩⟩
  rw [Variant.drain_rawDented] at hraw
  obtain ⟨xs, hxs⟩ := Drain.eq_map_ok_of_finish hraw
  have hls := Line.isLine_of_mem hxs
  have hn := Line.exists_newline_of_mem_tail hxs
  rw [heof, Variant.drain_dented hxs, indentWidths_eq hxs hwidth, lineHeads_eq hxs,
    codeLines_eq hxs]
  generalize (Scan.ofText .dented source).finish = finish
  cases hlines : Line.ofLexemes xs with
  | nil =>
    refine ⟨⟨fun _ i hi => absurd hi (Nat.not_lt_zero i), fun _ => ⟨_, rfl⟩⟩, ?_, ?_⟩
    · intro _ i hi
      exact absurd hi (Nat.not_lt_zero i)
    · intro i hi
      exact absurd hi (Nat.not_lt_zero i)
  | cons l ls =>
    rw [hlines] at hls hn
    -- Were there lines without a place, the first of them would be the fault.
    have hfit : (∃ u, (Layout.outlineText finish (l :: ls)).finish = .ok u) →
        ∀ (i : Nat) (hi : i < (Line.widths (l :: ls)).length),
          Fits ((Line.widths (l :: ls)).take i) (Line.widths (l :: ls))[i] := by
      rintro ⟨u, hu⟩ i
      induction i using Nat.strongRecOn with
      | ind i ih =>
        intro hi
        by_contra hnot
        obtain ⟨-, offset, width, -, he⟩ := outlineText_of_not_fits finish hls hn hi
          (fun j hj hlt => ih j hlt hj) hnot
        rw [hu] at he
        cases he
    refine ⟨⟨hfit, fun h => ⟨_, finish_outlineText_of_fits finish hls hn h⟩⟩, ?_, ?_⟩
    · intro hu i hi
      rw [List.length_map] at hi
      rw [List.getElem_map, ← List.map_take]
      exact exists_before_of_fits finish hls hn hi (hfit hu)
    · intro i hi hbefore hnot
      rw [← List.map_take]
      exact outlineText_of_not_fits finish hls hn hi hbefore hnot

/-- The statement of `Layout.widths_decide` for a text that closes two blocks at once, and for one
that returns to a width that is not open. -/
theorem Layout.widths_decide_stairs :
    (∃ u : Token, u.kind = .eof ∧
      (Variant.dented.drain "a\n  b\n\tc\n\n # d\ne").finish = .ok u) ∧
    ∃ offset width, UInt32.toNat width = 1 ∧
      (Variant.dented.drain "a\n  b\n\tc\n e").finish = .error (.inconsistentDedent offset width) := by
  have hraw : (Variant.rawDented.drain "a\n  b\n\tc\n\n # d\ne").finish =
      .ok ⟨.eof, 16, 16⟩ := by
    decide +kernel
  have hraw' : (Variant.rawDented.drain "a\n  b\n\tc\n e").finish = .ok ⟨.eof, 11, 11⟩ := by
    decide +kernel
  have hwidths : indentWidths "a\n  b\n\tc\n\n # d\ne" = [0, 2, 8, 0] := by decide +kernel
  have hwidths' : indentWidths "a\n  b\n\tc\n e" = [0, 2, 8, 1] := by decide +kernel
  have h := widths_decide hraw (by rw [hwidths]; decide)
  have h' := widths_decide hraw' (by rw [hwidths']; decide)
  rw [hwidths] at h
  rw [hwidths'] at h'
  constructor
  · exact h.1.2 (by decide)
  · obtain ⟨-, offset, width, hw, he⟩ := h'.2.2 3 (by decide) (by decide) (by decide)
    exact ⟨offset, width, hw, he⟩

end OffsideBench

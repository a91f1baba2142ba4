import OffsideBench.Proofs.Actions

/-!
# What an action prints

An action on a bench prints the same lines whatever the writer is like; the writer only decides how
many of them it takes. Either it takes them all and the action ends as it would have, or it is full
in front of one of them, the action ends there and nothing of that line is written.

`Prints` says so of one action. It is kept by sequences of actions, so it is proved of a whole run
line by line.

Main statements: `Prints.writeLine`, `Prints.bind` and `Prints.stopsAtLimit`.
-/

namespace OffsideBench

/-- A text without line feeds. -/
def OneLine (s : String) : Prop := '\n' ∉ s.toList

instance (s : String) : Decidable (OneLine s) := inferInstanceAs (Decidable ('\n' ∉ s.toList))

/-! ## Writers and lines -/

namespace Writer

/-- The writer behind a text that it took. -/
def put (w : Writer) (s : String) : Writer := { w with text := w.text ++ s }

/-- The writer behind some lines that it took. -/
def print (w : Writer) (lines : List String) : Writer :=
  w.put (String.join (lines.map (· ++ "\n")))

/-- The number of lines that a writer with a limit still takes. -/
def room (w : Writer) : Option Nat := w.limit.map (· - w.lineFeeds)

/-- The writer takes all of the lines. If it has a limit, they have to be lines. -/
def Takes (w : Writer) (lines : List String) : Prop :=
  ∀ n ∈ w.room, lines.length ≤ n ∧ ∀ l ∈ lines, OneLine l

variable {w : Writer} {n : Nat} {s : String} {ls ms : List String}

@[simp]
theorem limit_put : (w.put s).limit = w.limit := rfl

@[simp]
theorem limit_print : (w.print ls).limit = w.limit := rfl

@[simp]
theorem put_empty : w.put "" = w := by rw [put, String.append_empty]

theorem put_append (s t : String) : w.put (s ++ t) = (w.put s).put t := by
  simp only [put, String.append_assoc]

@[simp]
theorem print_nil : w.print [] = w := put_empty

theorem print_append (ls ms : List String) : w.print (ls ++ ms) = (w.print ls).print ms := by
  rw [print, List.map_append, String.join_append, put_append]
  rfl

theorem lineFeeds_put (s : String) :
    (w.put s).lineFeeds = w.lineFeeds + s.toList.countP (· = '\n') := by
  rw [lineFeeds, put, String.toList_append, List.countP_append]
  rfl

theorem countP_of_oneLine (h : OneLine s) : s.toList.countP (· = '\n') = 0 := by
  refine List.countP_eq_zero.2 fun c hc he => h ?_
  rwa [← of_decide_eq_true he]

/-- Each line holds one line feed. -/
theorem lineFeeds_print (h : ∀ l ∈ ls, OneLine l) :
    (w.print ls).lineFeeds = w.lineFeeds + ls.length := by
  induction ls generalizing w with
  | nil => rw [print_nil]; rfl
  | cons l ls ih =>
    have hone : (w.print [l]).lineFeeds = w.lineFeeds + 1 := by
      have hl := countP_of_oneLine (h l List.mem_cons_self)
      rw [print, List.map_singleton, String.join_cons, String.join_nil, String.append_empty,
        lineFeeds_put, String.toList_append, List.countP_append, hl]
      rfl
    have hrest := @ih (w.print [l]) fun m hm => h m (List.mem_cons_of_mem _ hm)
    rw [← List.singleton_append, print_append, hrest, hone, List.length_append,
      List.length_singleton]
    omega

theorem room_print (hn : w.room = some n) (h : ∀ l ∈ ls, OneLine l) :
    (w.print ls).room = some (n - ls.length) := by
  obtain ⟨limit, hlimit, rfl⟩ := Option.map_eq_some_iff.1 hn
  rw [room, limit_print, hlimit, lineFeeds_print h]
  exact congrArg some (Nat.sub_add_eq limit w.lineFeeds ls.length)

theorem takes_of_limit_none (h : w.limit = none) (lines : List String) : w.Takes lines := by
  intro n hn
  rw [room, h] at hn
  cases hn

theorem Takes.left (h : w.Takes (ls ++ ms)) : w.Takes ls := by
  intro n hn
  obtain ⟨hlen, hone⟩ := h n hn
  rw [List.length_append] at hlen
  exact ⟨by omega, fun l hl => hone l (List.mem_append_left _ hl)⟩

theorem Takes.right (h : w.Takes (ls ++ ms)) : (w.print ls).Takes ms := by
  intro n hn
  cases hroom : w.room with
  | none =>
    obtain ⟨limit, hlimit, -⟩ := Option.map_eq_some_iff.1 hn
    rw [limit_print] at hlimit
    rw [room, hlimit] at hroom
    cases hroom
  | some m =>
    obtain ⟨hlen, hone⟩ := h m hroom
    have hls := room_print hroom fun l hl => hone l (List.mem_append_left ms hl)
    obtain rfl : m - ls.length = n := Option.some.inj (hls.symm.trans hn)
    rw [List.length_append] at hlen
    exact ⟨by omega, fun l hl => hone l (List.mem_append_right _ hl)⟩

theorem isFull_iff (w : Writer) : w.isFull = true ↔ w.room = some 0 := by
  unfold isFull room
  cases w.limit with
  | none => simp
  | some limit => simp [Nat.sub_eq_zero_iff_le]

theorem Takes.not_full {l : String} (h : w.Takes [l]) : w.isFull = false := by
  cases hf : w.isFull with
  | false => rfl
  | true =>
    have hlen := (h 0 (w.isFull_iff.1 hf)).1
    exact absurd hlen (by simp)

/-- A piece of a line that is taken leaves room for the rest of that line. -/
theorem Takes.put {l : String} (h : w.Takes [s ++ l]) : (w.put s).Takes [l] := by
  intro n hn
  obtain ⟨limit, hlimit, hroom⟩ := Option.map_eq_some_iff.1 hn
  obtain ⟨hlen, hone⟩ := h (limit - w.lineFeeds) (by rw [room, ← limit_put (s := s), hlimit]; rfl)
  have hline := hone _ List.mem_cons_self
  rw [OneLine, String.toList_append, List.mem_append, not_or] at hline
  rw [lineFeeds_put, countP_of_oneLine hline.1, Nat.add_zero] at hroom
  refine ⟨hroom ▸ hlen, fun m hm => ?_⟩
  obtain rfl := List.mem_singleton.1 hm
  exact hline.2

end Writer

/-! ## Writing a line -/

namespace BenchM

variable {w : Writer} {clock : List Timing}

theorem write_of_not_full (h : w.isFull = false) (piece : String) :
    write piece ⟨w, clock⟩ = (.ok (), ⟨w.put piece, clock⟩) := by
  rw [write_eq]
  by_cases hp : piece.isEmpty
  · rw [String.isEmpty_iff.1 hp, Writer.put_empty]
    rfl
  · rw [if_neg hp, if_neg (by simp [h])]
    rfl

theorem writeLine_of_takes {pieces : List String} (h : w.Takes [String.join pieces]) :
    writeLine pieces ⟨w, clock⟩ = (.ok (), ⟨w.print [String.join pieces], clock⟩) := by
  induction pieces generalizing w with
  | nil => exact write_of_not_full h.not_full "\n"
  | cons piece pieces ih =>
    rw [String.join_cons] at h
    rw [writeLine, bind_of_ok (write_of_not_full h.not_full piece), ih h.put]
    simp only [Writer.print, List.map_singleton, String.join_cons, String.join_nil,
      String.append_empty, String.append_assoc, Writer.put_append]

/-- A full writer takes nothing of a line. -/
theorem writeLine_of_full (h : w.isFull = true) (pieces : List String) :
    writeLine pieces ⟨w, clock⟩ = (.error (.output Writer.fullReason), ⟨w, clock⟩) := by
  induction pieces with
  | nil =>
    rw [writeLine, write_eq, if_neg (by decide), if_pos h]
  | cons piece pieces ih =>
    rw [writeLine]
    by_cases hp : piece.isEmpty
    · rw [bind_of_ok (by rw [write_eq, if_pos hp]), ih]
    · rw [bind_of_error (by rw [write_eq, if_neg hp, if_pos h])]

/-- Also of a text that is no line, a line is written as far as possible. -/
theorem writeLine_cases (pieces : List String) :
    (∃ w', writeLine pieces ⟨w, clock⟩ = (.ok (), ⟨w', clock⟩)) ∨
      ∃ b, writeLine pieces ⟨w, clock⟩ = (.error (.output Writer.fullReason), b) := by
  have hwrite : ∀ (w : Writer) (piece : String),
      (∃ w', write piece ⟨w, clock⟩ = (.ok (), ⟨w', clock⟩)) ∨
        write piece ⟨w, clock⟩ = (.error (.output Writer.fullReason), ⟨w, clock⟩) := by
    intro w piece
    rw [write_eq]
    split
    · exact .inl ⟨w, rfl⟩
    split
    · exact .inr rfl
    · exact .inl ⟨w.put piece, rfl⟩
  induction pieces generalizing w with
  | nil =>
    rcases hwrite w "\n" with h | h
    · exact .inl h
    · exact .inr ⟨_, h⟩
  | cons piece pieces ih =>
    rw [writeLine]
    rcases hwrite w piece with ⟨w', h⟩ | h
    · rw [bind_of_ok h]
      exact ih
    · exact .inr ⟨_, bind_of_error h⟩

end BenchM

/-! ## Actions that print -/

section Prints

variable {α β : Type} {clock mid rest : List Timing} {ls ms : List String}

/-- Performing `x` when the clock shows `clock` prints `lines`, ends in `result` and leaves `rest`
of the clock; a writer that is full in front of one of the lines ends it there. These are the two
ways in which it ends also when the lines hold line feeds of their own. -/
structure Prints (x : BenchM α) (clock : List Timing) (lines : List String)
    (result : Except BenchError α) (rest : List Timing) : Prop where
  whole : ∀ w : Writer, w.Takes lines → x ⟨w, clock⟩ = (result, ⟨w.print lines, rest⟩)
  cut : ∀ (w : Writer) (n : Nat), w.room = some n → n < lines.length → (∀ l ∈ lines, OneLine l) →
    ∃ left, x ⟨w, clock⟩ =
      (.error (.output Writer.fullReason), ⟨w.print (lines.take n), left⟩)
  either : ∀ w : Writer, (∃ w', x ⟨w, clock⟩ = (result, ⟨w', rest⟩)) ∨
    ∃ b, x ⟨w, clock⟩ = (.error (.output Writer.fullReason), b)

namespace Prints

/-- An action that writes nothing and does not look at what was written. -/
theorem of_silent {x : BenchM α} {result : Except BenchError α}
    (h : ∀ w, x ⟨w, clock⟩ = (result, ⟨w, rest⟩)) : Prints x clock [] result rest where
  whole w _ := by rw [Writer.print_nil, h]
  cut _ _ _ hlt := absurd hlt (Nat.not_lt_zero _)
  either w := .inl ⟨w, h w⟩

theorem pure (a : α) : Prints (Pure.pure a) clock [] (.ok a) clock := .of_silent fun _ => rfl

theorem ofExcept (result : Except BenchError α) :
    Prints (BenchM.ofExcept result) clock [] result clock := .of_silent fun _ => rfl

theorem readClock : Prints BenchM.readClock clock [] (.ok (clock.headD {})) clock.tail := by
  refine .of_silent fun w => ?_
  cases clock <;> rfl

theorem writeLine (pieces : List String) :
    Prints (BenchM.writeLine pieces) clock [String.join pieces] (.ok ()) clock where
  whole _ h := BenchM.writeLine_of_takes h
  cut w n hroom hlt _ := by
    obtain rfl : n = 0 := Nat.lt_one_iff.1 hlt
    refine ⟨clock, ?_⟩
    rw [List.take_zero, Writer.print_nil]
    exact BenchM.writeLine_of_full (w.isFull_iff.2 hroom) pieces
  either _ := BenchM.writeLine_cases pieces

/-- An action that ends well is followed by the next one. -/
theorem bind {x : BenchM α} {f : α → BenchM β} {a : α} {result : Except BenchError β}
    (hx : Prints x clock ls (.ok a) mid) (hf : Prints (f a) mid ms result rest) :
    Prints (x >>= f) clock (ls ++ ms) result rest where
  whole w h := by
    rw [bind_of_ok (hx.whole w h.left), hf.whole _ h.right, Writer.print_append]
  cut w n hroom hlt hone := by
    have hls : ∀ l ∈ ls, OneLine l := fun l hl => hone l (List.mem_append_left _ hl)
    have hms : ∀ l ∈ ms, OneLine l := fun l hl => hone l (List.mem_append_right _ hl)
    rw [List.length_append] at hlt
    by_cases hcut : n < ls.length
    · obtain ⟨left, hleft⟩ := hx.cut w n hroom hcut hls
      refine ⟨left, ?_⟩
      rw [bind_of_error hleft, List.take_append_of_le_length (by omega)]
    · have htakes : w.Takes ls := by
        intro m hm
        obtain rfl : n = m := Option.some.inj (hroom.symm.trans hm)
        exact ⟨by omega, hls⟩
      obtain ⟨left, hleft⟩ := hf.cut _ _ (Writer.room_print hroom hls) (by omega) hms
      refine ⟨left, ?_⟩
      rw [bind_of_ok (hx.whole w htakes), hleft, ← Writer.print_append, List.take_append,
        List.take_of_length_le (by omega : ls.length ≤ n)]
  either w := by
    rcases hx.either w with ⟨w', h⟩ | ⟨b, h⟩
    · rw [bind_of_ok h]
      exact hf.either w'
    · exact .inr ⟨b, bind_of_error h⟩

theorem andThen {x : BenchM Unit} {y : BenchM β} {result : Except BenchError β}
    (hx : Prints x clock ls (.ok ()) mid) (hy : Prints y mid ms result rest) :
    Prints (do x; y) clock (ls ++ ms) result rest :=
  hx.bind hy

theorem line {y : BenchM β} {result : Except BenchError β} (pieces : List String)
    (hy : Prints y clock ms result rest) :
    Prints (do BenchM.writeLine pieces; y) clock (String.join pieces :: ms) result rest :=
  (writeLine pieces).andThen hy

/-- An action that fails is the last one. -/
theorem bind_error {x : BenchM α} {f : α → BenchM β} {e : BenchError}
    (hx : Prints x clock ls (.error e) rest) : Prints (x >>= f) clock ls (.error e) rest where
  whole w h := bind_of_error (hx.whole w h)
  cut w n hroom hlt hone := by
    obtain ⟨left, hleft⟩ := hx.cut w n hroom hlt hone
    exact ⟨left, bind_of_error hleft⟩
  either w := by
    rcases hx.either w with ⟨w', h⟩ | ⟨b, h⟩
    · exact .inl ⟨w', bind_of_error h⟩
    · exact .inr ⟨b, bind_of_error h⟩

end Prints

/-- When no writer cuts it off, the action prints the lines and ends in the result. A writer with a
limit takes the lines that fit, and the action ends at the first one that does not. -/
def StopsAtLimit (x : BenchM α) (clock : List Timing) (lines : List String)
    (result : Except BenchError α) : Prop :=
  ∀ w : Writer,
    ((∀ n, w.limit = some n → lines.length ≤ n - w.lineFeeds) →
      ∃ rest, x ⟨w, clock⟩ = (result, ⟨w.print lines, rest⟩)) ∧
    ∀ n, w.limit = some n → n - w.lineFeeds < lines.length →
      ∃ rest, x ⟨w, clock⟩ =
        (.error (.output Writer.fullReason), ⟨w.print (lines.take (n - w.lineFeeds)), rest⟩)

theorem Prints.stopsAtLimit {x : BenchM α} {result : Except BenchError α}
    (hx : Prints x clock ls result rest) (hone : ∀ l ∈ ls, OneLine l) :
    StopsAtLimit x clock ls result := by
  intro w
  constructor
  · intro hroom
    have htakes : w.Takes ls := by
      intro n hn
      obtain ⟨limit, hlimit, rfl⟩ := Option.map_eq_some_iff.1 hn
      exact ⟨hroom limit hlimit, hone⟩
    exact ⟨rest, hx.whole w htakes⟩
  · intro n hn hlt
    have hroom : w.room = some (n - w.lineFeeds) := by rw [Writer.room, hn]; rfl
    exact hx.cut w _ hroom hlt hone

end Prints

end OffsideBench

import OffsideBench.Json.Number

/-!
# Skipping JSON values

Values that nobody asked for are skipped: they must be JSON, but the halves of characters may stand
alone and numbers may be of any size. The brackets that are open around the current place stand in a
list, so values may be nested to any depth.
-/

namespace OffsideBench.Json

/-! ## Blanks, words and colons -/

/-- Whether a character may stand between the parts of a text. -/
def isBlank (c : Char) : Bool := c == ' ' || c == '\n' || c == '\r' || c == '\t'

/-- A text without the blanks in front. -/
def skipBlanks (cs : List Char) : List Char := cs.dropWhile isBlank

/-- Reads the rest of a word. -/
def word (expected cs : List Char) : Except Fault (List Char) :=
  match expected, cs with
  | [], cs => .ok cs
  | _ :: _, [] => .error .incomplete
  | e :: expected, c :: cs => if e = c then word expected cs else .error .malformed

/-- Reads a colon. -/
def colon (cs : List Char) : Except Fault (List Char) :=
  match skipBlanks cs with
  | [] => .error .incomplete
  | c :: rest => if c = ':' then .ok rest else .error .malformed

theorem skipBlanks_length (cs : List Char) : (skipBlanks cs).length ≤ cs.length :=
  (List.dropWhile_suffix _).length_le

theorem length_lt_of_skipBlanks {cs rest : List Char} {c : Char} (h : skipBlanks cs = c :: rest) :
    rest.length < cs.length := by
  have := skipBlanks_length cs
  rw [h, List.length_cons] at this
  omega

theorem word_length {expected cs rest : List Char} (h : word expected cs = .ok rest) :
    rest.length ≤ cs.length := by
  fun_induction word expected cs with
  | case1 => cases h; exact Nat.le_refl _
  | case2 => cases h
  | case3 _ _ _ ih =>
    have := ih h
    simp only [List.length_cons]
    omega
  | case4 => cases h

theorem colon_length {cs rest : List Char} (h : colon cs = .ok rest) :
    rest.length < cs.length := by
  unfold colon at h
  split at h
  · cases h
  · rename_i hb
    split at h
    · cases h
      exact length_lt_of_skipBlanks hb
    · cases h

/-! ## Skipping -/

/-- A kind of brackets. -/
inductive Bracket where
  | square
  | curly
deriving DecidableEq, Repr, Inhabited

/-- The closing bracket. -/
def Bracket.closing : Bracket → Char
  | square => ']'
  | curly => '}'

/-- What comes next when values are skipped, with the brackets that are open. -/
inductive Skipping where
  /-- A value. -/
  | value (brackets : List Bracket)
  /-- What follows an opening bracket. -/
  | opened (b : Bracket) (outer : List Bracket)
  /-- What follows a value. -/
  | behind (brackets : List Bracket)
deriving DecidableEq, Repr, Inhabited

/-- Skips a value without parts, or the opening bracket of one with parts. -/
def skipStart (brackets : List Bracket) (cs : List Char) : Except Fault (Skipping × List Char) :=
  match skipBlanks cs with
  | [] => .error .incomplete
  | '[' :: rest => .ok (.opened .square brackets, rest)
  | '{' :: rest => .ok (.opened .curly brackets, rest)
  | '"' :: rest => (skipString rest).map fun rest => (.behind brackets, rest)
  | 'n' :: rest => (word ['u', 'l', 'l'] rest).map fun rest => (.behind brackets, rest)
  | 't' :: rest => (word ['r', 'u', 'e'] rest).map fun rest => (.behind brackets, rest)
  | 'f' :: rest => (word ['a', 'l', 's', 'e'] rest).map fun rest => (.behind brackets, rest)
  | c :: rest =>
    if startsNumber c then (skipNumber (c :: rest)).map fun rest => (.behind brackets, rest)
    else .error .malformed

/-- Skips what an element between brackets starts with. -/
def skipElement (b : Bracket) (outer : List Bracket) (cs : List Char) :
    Except Fault (Skipping × List Char) :=
  match b with
  | .square => skipStart (b :: outer) cs
  | .curly =>
    match skipBlanks cs with
    | [] => .error .incomplete
    | c :: rest =>
      if c = '"' then
        match skipString rest with
        | .error e => .error e
        | .ok rest => (colon rest).map fun rest => (.value (b :: outer), rest)
      else
        .error .malformed

/-- Skips one step further. -/
def skipStep (s : Skipping) (cs : List Char) : Except Fault (Skipping × List Char) :=
  match s with
  | .value brackets => skipStart brackets cs
  | .opened b outer =>
    match skipBlanks cs with
    | [] => .error .incomplete
    | c :: rest => if c = b.closing then .ok (.behind outer, rest) else skipElement b outer cs
  | .behind [] => .error .malformed
  | .behind (b :: outer) =>
    match skipBlanks cs with
    | [] => .error .incomplete
    | c :: rest =>
      if c = b.closing then .ok (.behind outer, rest)
      else if c = ',' then skipElement b outer rest
      else .error .malformed

private theorem length_lt_of_map {α : Type} {result : Except Fault (List Char)}
    {f : List Char → α} {a : α} {cs rest : List Char}
    (h : result.map (fun r => (f r, r)) = .ok (a, rest))
    (hr : ∀ {rest}, result = .ok rest → rest.length < cs.length) : rest.length < cs.length := by
  cases result with
  | error e => cases h
  | ok r =>
    simp only [Except.map, Except.ok.injEq, Prod.mk.injEq] at h
    exact h.2 ▸ hr rfl

theorem skipStart_length {brackets : List Bracket} {cs rest : List Char} {s : Skipping}
    (h : skipStart brackets cs = .ok (s, rest)) : rest.length < cs.length := by
  unfold skipStart at h
  split at h
  · cases h
  · rename_i hb
    cases h
    exact length_lt_of_skipBlanks hb
  · rename_i hb
    cases h
    exact length_lt_of_skipBlanks hb
  · rename_i hb
    exact length_lt_of_map h fun hr =>
      Nat.lt_trans (skipString_length hr) (length_lt_of_skipBlanks hb)
  · rename_i hb
    exact length_lt_of_map h fun hr =>
      Nat.lt_of_le_of_lt (word_length hr) (length_lt_of_skipBlanks hb)
  · rename_i hb
    exact length_lt_of_map h fun hr =>
      Nat.lt_of_le_of_lt (word_length hr) (length_lt_of_skipBlanks hb)
  · rename_i hb
    exact length_lt_of_map h fun hr =>
      Nat.lt_of_le_of_lt (word_length hr) (length_lt_of_skipBlanks hb)
  · rename_i hb
    split at h
    · exact length_lt_of_map h fun hr =>
        Nat.lt_of_lt_of_le (hb ▸ skipNumber_length hr) (skipBlanks_length cs)
    · cases h

theorem skipElement_length {b : Bracket} {outer : List Bracket} {cs rest : List Char}
    {s : Skipping} (h : skipElement b outer cs = .ok (s, rest)) : rest.length < cs.length := by
  unfold skipElement at h
  split at h
  · exact skipStart_length h
  split at h
  · cases h
  rename_i hb
  split at h
  · split at h
    · cases h
    · rename_i hs
      exact length_lt_of_map h fun hr => Nat.lt_trans (colon_length hr)
        (Nat.lt_trans (skipString_length hs) (length_lt_of_skipBlanks hb))
  · cases h

theorem skipStep_length {s s' : Skipping} {cs rest : List Char}
    (h : skipStep s cs = .ok (s', rest)) : rest.length < cs.length := by
  unfold skipStep at h
  split at h
  · exact skipStart_length h
  · split at h
    · cases h
    · rename_i hb
      split at h
      · cases h
        exact length_lt_of_skipBlanks hb
      · exact skipElement_length h
  · cases h
  · split at h
    · cases h
    · rename_i hb
      split at h
      · cases h
        exact length_lt_of_skipBlanks hb
      split at h
      · exact Nat.lt_trans (skipElement_length h) (length_lt_of_skipBlanks hb)
      · cases h

/-- Skips until a value has ended and no bracket is open. -/
def skipFrom (s : Skipping) (cs : List Char) : Except Fault (List Char) :=
  if s = .behind [] then .ok cs
  else
    match h : skipStep s cs with
    | .error e => .error e
    | .ok (s, rest) =>
      have := skipStep_length h
      skipFrom s rest
termination_by cs.length

theorem skipFrom_length {s : Skipping} {cs rest : List Char} (h : skipFrom s cs = .ok rest) :
    rest.length ≤ cs.length := by
  fun_induction skipFrom s cs with
  | case1 => cases h; exact Nat.le_refl _
  | case2 => cases h
  | case3 _ _ _ _ _ _ _ ih =>
    have := ih h
    omega

/-- Skips a value. -/
def skipValue (cs : List Char) : Except Fault (List Char) := skipFrom (.value []) cs

theorem skipValue_length {cs rest : List Char} (h : skipValue cs = .ok rest) :
    rest.length < cs.length := by
  unfold skipValue at h
  rw [skipFrom] at h
  split at h
  · rename_i hs
    cases hs
  split at h
  · cases h
  · rename_i hs
    exact Nat.lt_of_le_of_lt (skipFrom_length h) (skipStep_length hs)

end OffsideBench.Json

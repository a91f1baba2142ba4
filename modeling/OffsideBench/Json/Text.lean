import OffsideBench.Text.Hex

/-!
# JSON strings

Writing and reading strings in JSON. A string stands between double quotes; quotes, backslashes and
control characters are written behind a backslash. When strings are read, a character outside the
first plane may be written as two halves, each in four hexadecimal digits, and neither half may
stand alone.
-/

namespace OffsideBench.Json

/-- Why a text could not be read. -/
inductive Fault where
  /-- It ends too early. -/
  | incomplete
  /-- It is no JSON. -/
  | malformed
  /-- It is JSON, but not what was asked for. -/
  | mismatch
deriving DecidableEq, Repr, Inhabited

/-! ## Writing -/

/-- A character as it is written in a string. -/
def escapeChar (c : Char) : List Char :=
  match c with
  | '"' => ['\\', '"']
  | '\\' => ['\\', '\\']
  | '\x08' => ['\\', 'b']
  | '\x0c' => ['\\', 'f']
  | '\n' => ['\\', 'n']
  | '\r' => ['\\', 'r']
  | '\t' => ['\\', 't']
  | c => if c.toNat < 0x20 then '\\' :: 'u' :: '0' :: '0' :: Text.hexByte c.toNat.toUInt8 else [c]

/-- A string between quotes. -/
def quote (s : String) : List Char := '"' :: (s.toList.flatMap escapeChar ++ ['"'])

/-! ## Reading -/

/-- The character that a letter behind a backslash stands for. -/
def unescaped? : Char → Option Char
  | '"' => some '"'
  | '\\' => some '\\'
  | '/' => some '/'
  | 'b' => some '\x08'
  | 'f' => some '\x0c'
  | 'n' => some '\n'
  | 'r' => some '\r'
  | 't' => some '\t'
  | _ => none

/-- Reads four hexadecimal digits. A text of fewer than four bytes has ended too early, whatever it
holds. -/
def codeUnit (cs : List Char) : Except Fault (Nat × List Char) :=
  if (String.ofList (cs.take 4)).utf8ByteSize < 4 then .error .incomplete
  else
    match cs with
    | a :: b :: c :: d :: rest =>
      match Text.hexValue? a, Text.hexValue? b, Text.hexValue? c, Text.hexValue? d with
      | some a, some b, some c, some d => .ok (((a * 16 + b) * 16 + c) * 16 + d, rest)
      | _, _, _, _ => .error .malformed
    | _ => .error .malformed

/-- Reads the second half of a character. -/
def secondHalf (first : Nat) : List Char → Except Fault (Char × List Char)
  | [] => .error .incomplete
  | ['\\'] => .error .incomplete
  | '\\' :: 'u' :: cs =>
    match codeUnit cs with
    | .error e => .error e
    | .ok (second, rest) =>
      if 0xdc00 ≤ second ∧ second ≤ 0xdfff then
        .ok (Char.ofNat (0x10000 + (first - 0xd800) * 0x400 + (second - 0xdc00)), rest)
      else
        .error .malformed
  | _ => .error .malformed

/-- Reads what follows a backslash. -/
def escaped : List Char → Except Fault (Char × List Char)
  | [] => .error .incomplete
  | 'u' :: cs =>
    match codeUnit cs with
    | .error e => .error e
    | .ok (unit, rest) =>
      if 0xdc00 ≤ unit ∧ unit ≤ 0xdfff then .error .malformed
      else if 0xd800 ≤ unit ∧ unit ≤ 0xdbff then secondHalf unit rest
      else .ok (Char.ofNat unit, rest)
  | c :: cs =>
    match unescaped? c with
    | some c => .ok (c, cs)
    | none => .error .malformed

/-- Skips what follows a backslash. Halves of characters may stand alone here. -/
def skipEscaped : List Char → Except Fault (Char × List Char)
  | [] => .error .incomplete
  | 'u' :: cs =>
    match codeUnit cs with
    | .error e => .error e
    | .ok (unit, rest) => .ok (Char.ofNat unit, rest)
  | c :: cs =>
    match unescaped? c with
    | some c => .ok (c, cs)
    | none => .error .malformed

theorem codeUnit_length {cs rest : List Char} {n : Nat} (h : codeUnit cs = .ok (n, rest)) :
    rest.length < cs.length := by
  unfold codeUnit at h
  split at h
  · cases h
  split at h
  · split at h
    · simp only [Except.ok.injEq, Prod.mk.injEq] at h
      simp only [List.length_cons, ← h.2]
      omega
    · cases h
  · cases h

theorem secondHalf_length {first : Nat} {cs rest : List Char} {c : Char}
    (h : secondHalf first cs = .ok (c, rest)) : rest.length < cs.length := by
  unfold secondHalf at h
  split at h
  · cases h
  · cases h
  · split at h
    · cases h
    · rename_i hu
      have := codeUnit_length hu
      split at h
      · simp only [Except.ok.injEq, Prod.mk.injEq] at h
        simp only [List.length_cons, ← h.2]
        omega
      · cases h
  · cases h

theorem escaped_length {cs rest : List Char} {c : Char} (h : escaped cs = .ok (c, rest)) :
    rest.length < cs.length := by
  unfold escaped at h
  split at h
  · cases h
  · split at h
    · cases h
    · rename_i hu
      have hlt := codeUnit_length hu
      simp only [List.length_cons]
      split at h
      · cases h
      · split at h
        · have := secondHalf_length h
          omega
        · cases h
          omega
  · split at h
    · cases h
      simp
    · cases h

theorem skipEscaped_length {cs rest : List Char} {c : Char} (h : skipEscaped cs = .ok (c, rest)) :
    rest.length < cs.length := by
  unfold skipEscaped at h
  split at h
  · cases h
  · split at h
    · cases h
    · rename_i hu
      have hlt := codeUnit_length hu
      cases h
      simp only [List.length_cons]
      omega
  · split at h
    · cases h
      simp
    · cases h

/-- A way to read what follows a backslash. -/
structure Unescape where
  /-- Gives the character and the text behind it. -/
  read : List Char → Except Fault (Char × List Char)
  /-- What is read is not empty. -/
  shorter : ∀ {cs rest c}, read cs = .ok (c, rest) → rest.length < cs.length

/-- Reading what follows a backslash. -/
def Unescape.strict : Unescape := ⟨escaped, escaped_length⟩

/-- Skipping what follows a backslash. -/
def Unescape.lenient : Unescape := ⟨skipEscaped, skipEscaped_length⟩

/-- Reads the characters of a string behind its first quote, and the last quote. -/
def charsBy (u : Unescape) (cs : List Char) : Except Fault (List Char × List Char) :=
  match cs with
  | [] => .error .incomplete
  | '"' :: rest => .ok ([], rest)
  | '\\' :: rest =>
    match h : u.read rest with
    | .error e => .error e
    | .ok (c, rest') =>
      have := u.shorter h
      (charsBy u rest').map fun p => (c :: p.1, p.2)
  | c :: rest =>
    if c.toNat < 0x20 then .error .malformed
    else (charsBy u rest).map fun p => (c :: p.1, p.2)
termination_by cs.length

theorem charsBy_length {u : Unescape} {cs s rest : List Char} (h : charsBy u cs = .ok (s, rest)) :
    rest.length < cs.length := by
  fun_induction charsBy u cs generalizing s with
  | case1 => cases h
  | case2 => cases h; simp
  | case3 => cases h
  | case4 tail c rest' hr hlt ih =>
    cases hc : charsBy u rest' with
    | error e => simp [hc, Except.map] at h
    | ok p =>
      simp only [hc, Except.map, Except.ok.injEq, Prod.mk.injEq] at h
      have := ih (hc.trans (by rw [← h.2]))
      simp only [List.length_cons]
      omega
  | case5 => cases h
  | case6 c tail _ _ _ ih =>
    cases hc : charsBy u tail with
    | error e => simp [hc, Except.map] at h
    | ok p =>
      simp only [hc, Except.map, Except.ok.injEq, Prod.mk.injEq] at h
      have := ih (hc.trans (by rw [← h.2]))
      simp only [List.length_cons]
      omega

/-- Reads a string behind its first quote. -/
def string (cs : List Char) : Except Fault (String × List Char) :=
  (charsBy .strict cs).map fun p => (String.ofList p.1, p.2)

/-- Skips a string behind its first quote. -/
def skipString (cs : List Char) : Except Fault (List Char) :=
  (charsBy .lenient cs).map Prod.snd

theorem string_length {cs rest : List Char} {s : String} (h : string cs = .ok (s, rest)) :
    rest.length < cs.length := by
  unfold string at h
  cases hc : charsBy .strict cs with
  | error e => simp [hc, Except.map] at h
  | ok p =>
    simp only [hc, Except.map, Except.ok.injEq, Prod.mk.injEq] at h
    exact charsBy_length (hc.trans (by rw [← h.2]))

theorem skipString_length {cs rest : List Char} (h : skipString cs = .ok rest) :
    rest.length < cs.length := by
  unfold skipString at h
  cases hc : charsBy .lenient cs with
  | error e => simp [hc, Except.map] at h
  | ok p =>
    simp only [hc, Except.map, Except.ok.injEq] at h
    exact charsBy_length (hc.trans (by rw [← h]))

end OffsideBench.Json

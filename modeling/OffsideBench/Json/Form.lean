import OffsideBench.Json.Skip
import OffsideBench.Json.Value

/-!
# Forms of JSON values

A form says which values are acceptable in a place, and reads one. Reading goes from left to right
and stops at the first fault, be it that the text is no JSON or that the value is of another form.

A record may also be written as the list of its values. Fields that a record does not have are
skipped.
-/

namespace OffsideBench.Json

/-- A form of values. -/
structure Form where
  /-- Reads a value of the form and gives the text behind it. -/
  read : List Char → Except Fault (Value × List Char)
  /-- A value is not empty. -/
  shorter : ∀ {cs v rest}, read cs = .ok (v, rest) → rest.length < cs.length

/-- The fault of a value that starts here and is of another form: its own fault, if it has one. -/
def otherForm (cs : List Char) : Fault :=
  let faultOf {α : Type} : Except Fault α → Fault
    | .error e => e
    | .ok _ => .mismatch
  match cs with
  | [] => .incomplete
  | '[' :: _ | '{' :: _ => .mismatch
  | '"' :: rest => faultOf (string rest)
  | 'n' :: rest => faultOf (word ['u', 'l', 'l'] rest)
  | 't' :: rest => faultOf (word ['r', 'u', 'e'] rest)
  | 'f' :: rest => faultOf (word ['a', 'l', 's', 'e'] rest)
  | c :: rest => if startsNumber c then faultOf (number (c :: rest)) else .malformed

/-- Reads a string. -/
def readString (cs : List Char) : Except Fault (String × List Char) :=
  match skipBlanks cs with
  | '"' :: rest => string rest
  | cs => .error (otherForm cs)

theorem readString_length {cs rest : List Char} {s : String} (h : readString cs = .ok (s, rest)) :
    rest.length < cs.length := by
  unfold readString at h
  split at h
  · rename_i hb
    exact Nat.lt_trans (string_length h) (length_lt_of_skipBlanks hb)
  · cases h

/-- Reads a number. -/
def readNumber (cs : List Char) : Except Fault (Number × List Char) :=
  match skipBlanks cs with
  | [] => .error .incomplete
  | c :: rest => if startsNumber c then number (c :: rest) else .error (otherForm (c :: rest))

theorem readNumber_length {cs rest : List Char} {n : Number} (h : readNumber cs = .ok (n, rest)) :
    rest.length < cs.length := by
  unfold readNumber at h
  split at h
  · cases h
  · rename_i hb
    split at h
    · exact Nat.lt_of_lt_of_le (hb ▸ number_length h) (skipBlanks_length cs)
    · cases h

/-- Reads `null`. -/
def readNull (cs : List Char) : Except Fault (List Char) :=
  match skipBlanks cs with
  | 'n' :: rest => word ['u', 'l', 'l'] rest
  | cs => .error (otherForm cs)

theorem readNull_length {cs rest : List Char} (h : readNull cs = .ok rest) :
    rest.length < cs.length := by
  unfold readNull at h
  split at h
  · rename_i hb
    exact Nat.lt_of_le_of_lt (word_length h) (length_lt_of_skipBlanks hb)
  · cases h

namespace Form

/-! ## Values without parts -/

/-- Strings. -/
def text : Form where
  read cs := (readString cs).map fun p => (.text p.1, p.2)
  shorter {cs v rest} h := by
    cases hr : readString cs with
    | error e => simp [hr, Except.map] at h
    | ok p =>
      simp only [hr, Except.map, Except.ok.injEq, Prod.mk.injEq] at h
      exact h.2 ▸ readString_length hr

/-- Whole numbers below a limit. -/
def wordBelow (limit : Nat) : Form where
  read cs :=
    match readNumber cs with
    | .error e => .error e
    | .ok (.natural n, rest) => if n.toNat < limit then .ok (.word n, rest) else .error .mismatch
    | .ok (.real _, _) => .error .mismatch
  shorter {cs v rest} h := by
    split at h
    · cases h
    · rename_i hr
      split at h
      · cases h
        exact readNumber_length hr
      · cases h
    · cases h

/-- Numbers. -/
def real : Form where
  read cs :=
    match readNumber cs with
    | .error e => .error e
    | .ok (.natural n, rest) => .ok (.real (.ofNat n.toNat), rest)
    | .ok (.real x, rest) => .ok (.real x, rest)
  shorter {cs v rest} h := by
    split at h
    · cases h
    · rename_i hr
      cases h
      exact readNumber_length hr
    · rename_i hr
      cases h
      exact readNumber_length hr

/-- Values of a form, or `null`. -/
def optional (f : Form) : Form where
  read cs :=
    match skipBlanks cs with
    | 'n' :: rest => (word ['u', 'l', 'l'] rest).map fun rest => (.null, rest)
    | _ => f.read cs
  shorter {cs v rest} h := by
    split at h
    · rename_i tail hb
      cases hw : word ['u', 'l', 'l'] tail with
      | error e => simp [hw, Except.map] at h
      | ok r =>
        simp only [hw, Except.map, Except.ok.injEq, Prod.mk.injEq] at h
        exact h.2 ▸ Nat.lt_of_le_of_lt (word_length hw) (length_lt_of_skipBlanks hb)
    · exact f.shorter h

/-! ## One of several names -/

/-- Reads one of some names. -/
def readName (names : List String) (cs : List Char) : Except Fault (String × List Char) :=
  match readString cs with
  | .error e => .error e
  | .ok (name, rest) => if name ∈ names then .ok (name, rest) else .error .mismatch

theorem readName_length {names : List String} {cs rest : List Char} {s : String}
    (h : readName names cs = .ok (s, rest)) : rest.length < cs.length := by
  unfold readName at h
  split at h
  · cases h
  · rename_i hr
    split at h
    · cases h
      exact readString_length hr
    · cases h

/-- Reads the key of a field that has one of some names. Only a string is a key, so that any other
value is no text of a record at all, and not a value of another form. -/
def readKey (names : List String) (cs : List Char) : Except Fault (String × List Char) :=
  match skipBlanks cs with
  | [] => .error .incomplete
  | c :: rest => if c = '"' then readName names (c :: rest) else .error .malformed

theorem readKey_length {names : List String} {cs rest : List Char} {s : String}
    (h : readKey names cs = .ok (s, rest)) : rest.length < cs.length := by
  unfold readKey at h
  split at h
  · cases h
  · rename_i hb
    split at h
    · exact Nat.lt_of_lt_of_le (hb ▸ readName_length h) (skipBlanks_length cs)
    · cases h

/-- Reads what follows the opening bracket of a record whose only field has one of some names and
holds `null`. -/
def readTag (names : List String) (cs : List Char) : Except Fault (String × List Char) :=
  match readKey names cs with
  | .error e => .error e
  | .ok (name, rest) =>
    match colon rest with
    | .error e => .error e
    | .ok rest =>
      match readNull rest with
      | .error e => .error e
      | .ok rest =>
        match skipBlanks rest with
        | [] => .error .incomplete
        | c :: rest => if c = '}' then .ok (name, rest) else .error .malformed

theorem readTag_length {names : List String} {cs rest : List Char} {s : String}
    (h : readTag names cs = .ok (s, rest)) : rest.length < cs.length := by
  unfold readTag at h
  split at h
  · cases h
  rename_i hn
  split at h
  · cases h
  rename_i hc
  split at h
  · cases h
  rename_i hu
  split at h
  · cases h
  rename_i hb
  split at h
  · cases h
    have := readKey_length hn
    have := colon_length hc
    have := readNull_length hu
    have := length_lt_of_skipBlanks hb
    omega
  · cases h

/-- One of some names, as a string or as the only field of a record that holds `null`. -/
def choice (names : List String) : Form where
  read cs :=
    match skipBlanks cs with
    | [] => .error .incomplete
    | '"' :: _ => (readName names cs).map fun p => (.text p.1, p.2)
    | '{' :: rest => (readTag names rest).map fun p => (.text p.1, p.2)
    | _ :: _ => .error .malformed
  shorter {cs v rest} h := by
    split at h
    · cases h
    · cases hr : readName names cs with
      | error e => simp [hr, Except.map] at h
      | ok p =>
        simp only [hr, Except.map, Except.ok.injEq, Prod.mk.injEq] at h
        exact h.2 ▸ readName_length hr
    · rename_i tail hb
      cases hr : readTag names tail with
      | error e => simp [hr, Except.map] at h
      | ok p =>
        simp only [hr, Except.map, Except.ok.injEq, Prod.mk.injEq] at h
        exact h.2 ▸ Nat.lt_trans (readTag_length hr) (length_lt_of_skipBlanks hb)
    · cases h

/-! ## Lists -/

/-- Reads the elements of a list that has one, and the closing bracket. -/
def elements (f : Form) (cs : List Char) : Except Fault (List Value × List Char) :=
  match h : f.read cs with
  | .error e => .error e
  | .ok (v, behind) =>
    match hb : skipBlanks behind with
    | [] => .error .incomplete
    | c :: rest =>
      if c = ']' then .ok ([v], rest)
      else if c = ',' then
        have := f.shorter h
        have := length_lt_of_skipBlanks hb
        (elements f rest).map fun p => (v :: p.1, p.2)
      else .error .malformed
termination_by cs.length

theorem elements_length {f : Form} {cs rest : List Char} {vs : List Value}
    (h : elements f cs = .ok (vs, rest)) : rest.length < cs.length := by
  fun_induction elements f cs generalizing vs with
  | case1 => cases h
  | case2 => cases h
  | case3 _ _ _ hr _ hb =>
    cases h
    exact Nat.lt_trans (length_lt_of_skipBlanks hb) (f.shorter hr)
  | case4 _ _ _ hr tail _ hb _ _ ih =>
    cases he : elements f tail with
    | error e => simp [he, Except.map] at h
    | ok p =>
      simp only [he, Except.map, Except.ok.injEq, Prod.mk.injEq] at h
      have := ih (he.trans (by rw [← h.2]))
      have := length_lt_of_skipBlanks hb
      have := f.shorter hr
      omega
  | case5 => cases h

/-- Reads what follows the opening bracket of a list. -/
def readList (f : Form) (cs : List Char) : Except Fault (List Value × List Char) :=
  match skipBlanks cs with
  | [] => .error .incomplete
  | c :: rest => if c = ']' then .ok ([], rest) else elements f (c :: rest)

theorem readList_length {f : Form} {cs rest : List Char} {vs : List Value}
    (h : readList f cs = .ok (vs, rest)) : rest.length < cs.length := by
  unfold readList at h
  split at h
  · cases h
  · rename_i hb
    split at h
    · cases h
      exact length_lt_of_skipBlanks hb
    · exact Nat.lt_of_lt_of_le (hb ▸ elements_length h) (skipBlanks_length cs)

/-- Lists of values of a form. -/
def list (f : Form) : Form where
  read cs :=
    match skipBlanks cs with
    | '[' :: rest => (readList f rest).map fun p => (.list p.1, p.2)
    | cs => .error (otherForm cs)
  shorter {cs v rest} h := by
    split at h
    · rename_i tail hb
      cases hr : readList f tail with
      | error e => simp [hr, Except.map] at h
      | ok p =>
        simp only [hr, Except.map, Except.ok.injEq, Prod.mk.injEq] at h
        exact h.2 ▸ Nat.lt_trans (readList_length hr) (length_lt_of_skipBlanks hb)
    · cases h

end Form

/-! ## Records -/

/-- A field of a record. -/
structure Field where
  /-- The name of the field. -/
  name : String
  /-- The form of its value. -/
  form : Form
  /-- Its value when the record is written without it. -/
  absent : Option Value := none

namespace Form

/-- Reads one field, or skips it if it is unknown. A field that was seen before is a fault even
before its value is read. -/
def readField (fields : List Field) (seen : List (String × Value)) (cs : List Char) :
    Except Fault (List (String × Value) × List Char) :=
  match skipBlanks cs with
  | [] => .error .incomplete
  | c :: rest =>
    if c ≠ '"' then .error .malformed
    else
      match string rest with
      | .error e => .error e
      | .ok (name, rest) =>
        match fields.find? (·.name = name) with
        | none =>
          match colon rest with
          | .error e => .error e
          | .ok rest => (skipValue rest).map fun rest => (seen, rest)
        | some field =>
          if (seen.lookup name).isSome then .error .mismatch
          else
            match colon rest with
            | .error e => .error e
            | .ok rest => (field.form.read rest).map fun p => ((name, p.1) :: seen, p.2)

theorem readField_length {fields : List Field} {seen seen' : List (String × Value)}
    {cs rest : List Char} (h : readField fields seen cs = .ok (seen', rest)) :
    rest.length < cs.length := by
  unfold readField at h
  split at h
  · cases h
  rename_i hb
  have := length_lt_of_skipBlanks hb
  split at h
  · cases h
  split at h
  · cases h
  rename_i hs
  have := string_length hs
  split at h
  · split at h
    · cases h
    rename_i afterColon hc
    have := colon_length hc
    cases hv : skipValue afterColon with
    | error e => simp [hv, Except.map] at h
    | ok r =>
      simp only [hv, Except.map, Except.ok.injEq, Prod.mk.injEq] at h
      have := skipValue_length hv
      rw [← h.2]
      omega
  · rename_i field _
    split at h
    · cases h
    split at h
    · cases h
    rename_i afterColon hc
    have := colon_length hc
    cases hv : field.form.read afterColon with
    | error e => simp [hv, Except.map] at h
    | ok p =>
      obtain ⟨v, tail⟩ := p
      simp only [hv, Except.map, Except.ok.injEq, Prod.mk.injEq] at h
      have := field.form.shorter hv
      rw [← h.2]
      omega

/-- Reads the fields of a record that has one, and the closing bracket. -/
def readFields (fields : List Field) (seen : List (String × Value)) (cs : List Char) :
    Except Fault (List (String × Value) × List Char) :=
  match h : readField fields seen cs with
  | .error e => .error e
  | .ok (seen, behind) =>
    match hb : skipBlanks behind with
    | [] => .error .incomplete
    | c :: rest =>
      if c = '}' then .ok (seen, rest)
      else if c = ',' then
        have := readField_length h
        have := length_lt_of_skipBlanks hb
        readFields fields seen rest
      else .error .malformed
termination_by cs.length

theorem readFields_length {fields : List Field} {seen seen' : List (String × Value)}
    {cs rest : List Char} (h : readFields fields seen cs = .ok (seen', rest)) :
    rest.length < cs.length := by
  fun_induction readFields fields seen cs with
  | case1 => cases h
  | case2 => cases h
  | case3 _ _ _ _ hr _ hb =>
    cases h
    exact Nat.lt_trans (length_lt_of_skipBlanks hb) (readField_length hr)
  | case4 _ _ _ _ hr _ _ hb _ _ ih =>
    have := ih h
    have := length_lt_of_skipBlanks hb
    have := readField_length hr
    omega
  | case5 => cases h

/-- Reads what follows the opening bracket of a record. -/
def readRecord (fields : List Field) (cs : List Char) :
    Except Fault (List (String × Value) × List Char) :=
  match skipBlanks cs with
  | [] => .error .incomplete
  | c :: rest => if c = '}' then .ok ([], rest) else readFields fields [] (c :: rest)

theorem readRecord_length {fields : List Field} {seen : List (String × Value)}
    {cs rest : List Char} (h : readRecord fields cs = .ok (seen, rest)) :
    rest.length < cs.length := by
  unfold readRecord at h
  split at h
  · cases h
  · rename_i hb
    split at h
    · cases h
      exact length_lt_of_skipBlanks hb
    · exact Nat.lt_of_lt_of_le (hb ▸ readFields_length h) (skipBlanks_length cs)

/-- Reads the values of the remaining fields of a record that is written as a list, and the closing
bracket. -/
def readMore : List Field → List Char → Except Fault (List (String × Value) × List Char)
  | [], cs =>
    match skipBlanks cs with
    | [] => .error .incomplete
    | c :: rest => if c = ']' then .ok ([], rest) else .error .malformed
  | field :: fields, cs =>
    match skipBlanks cs with
    | [] => .error .incomplete
    | c :: rest =>
      if c = ']' then .error .mismatch
      else if c = ',' then
        match field.form.read rest with
        | .error e => .error e
        | .ok (v, rest) => (readMore fields rest).map fun p => ((field.name, v) :: p.1, p.2)
      else .error .malformed

theorem readMore_length {fields : List Field} {seen : List (String × Value)}
    {cs rest : List Char} (h : readMore fields cs = .ok (seen, rest)) :
    rest.length < cs.length := by
  induction fields generalizing cs seen with
  | nil =>
    unfold readMore at h
    split at h
    · cases h
    · rename_i hb
      split at h
      · cases h
        exact length_lt_of_skipBlanks hb
      · cases h
  | cons field fields ih =>
    unfold readMore at h
    split at h
    · cases h
    rename_i hb
    have := length_lt_of_skipBlanks hb
    split at h
    · cases h
    split at h
    · split at h
      · cases h
      · rename_i v tail hr
        have := field.form.shorter hr
        cases hm : readMore fields tail with
        | error e => simp [hm, Except.map] at h
        | ok p =>
          simp only [hm, Except.map, Except.ok.injEq, Prod.mk.injEq] at h
          have := ih (hm.trans (by rw [← h.2]))
          omega
    · cases h

/-- Reads what follows the opening bracket of a record that is written as a list. -/
def readInOrder (fields : List Field) (cs : List Char) :
    Except Fault (List (String × Value) × List Char) :=
  match fields with
  | [] => readMore [] cs
  | field :: fields =>
    match skipBlanks cs with
    | [] => .error .incomplete
    | c :: rest =>
      if c = ']' then .error .mismatch
      else
        match field.form.read (c :: rest) with
        | .error e => .error e
        | .ok (v, rest) => (readMore fields rest).map fun p => ((field.name, v) :: p.1, p.2)

theorem readInOrder_length {fields : List Field} {seen : List (String × Value)}
    {cs rest : List Char} (h : readInOrder fields cs = .ok (seen, rest)) :
    rest.length < cs.length := by
  unfold readInOrder at h
  split at h
  · exact readMore_length h
  · rename_i field fields
    split at h
    · cases h
    rename_i hb
    have hle := skipBlanks_length cs
    rw [hb] at hle
    split at h
    · cases h
    split at h
    · cases h
    · rename_i v tail hr
      have := field.form.shorter hr
      cases hm : readMore fields tail with
      | error e => simp [hm, Except.map] at h
      | ok p =>
        obtain ⟨found, tail'⟩ := p
        simp only [hm, Except.map, Except.ok.injEq, Prod.mk.injEq] at h
        have := readMore_length hm
        rw [← h.2]
        omega

/-- The value of a field among those that were read. -/
def Field.value? (seen : List (String × Value)) (field : Field) : Option (String × Value) :=
  ((seen.lookup field.name).or field.absent).map fun v => (field.name, v)

/-- The record of the fields that were read, in the order of their declaration. -/
def assemble (fields : List Field) (seen : List (String × Value)) : Except Fault Value :=
  match fields.mapM (Field.value? seen) with
  | none => .error .mismatch
  | some values => .ok (.record values)

/-- Records with some fields. -/
def record (fields : List Field) : Form where
  read cs :=
    match skipBlanks cs with
    | '{' :: rest =>
      match readRecord fields rest with
      | .error e => .error e
      | .ok (seen, rest) => (assemble fields seen).map fun v => (v, rest)
    | '[' :: rest => (readInOrder fields rest).map fun p => (.record p.1, p.2)
    | cs => .error (otherForm cs)
  shorter {cs v rest} h := by
    split at h
    · rename_i hb
      split at h
      · cases h
      · rename_i seen tail hr
        cases ha : assemble fields seen with
        | error e => simp [ha, Except.map] at h
        | ok w =>
          simp only [ha, Except.map, Except.ok.injEq, Prod.mk.injEq] at h
          exact h.2 ▸ Nat.lt_trans (readRecord_length hr) (length_lt_of_skipBlanks hb)
    · rename_i tail hb
      cases hr : readInOrder fields tail with
      | error e => simp [hr, Except.map] at h
      | ok p =>
        simp only [hr, Except.map, Except.ok.injEq, Prod.mk.injEq] at h
        exact h.2 ▸ Nat.lt_trans (readInOrder_length hr) (length_lt_of_skipBlanks hb)
    · cases h

/-! ## Whole texts -/

/-- Reads a text that is one value of a form. -/
def parse (f : Form) (text : List Char) : Except Fault Value :=
  match f.read text with
  | .error e => .error e
  | .ok (v, rest) => if skipBlanks rest = [] then .ok v else .error .malformed

end Form

end OffsideBench.Json

/-!
# Reading UTF-8

Bytes are text when they are UTF-8. When they are not, the fault is reported by its place: the first
byte that no character accounts for, and the number of bytes that start a character but cannot go on
as they do. Bytes that merely end too early are incomplete.
-/

namespace OffsideBench.Utf8

/-- Why bytes are no text. Indices count bytes from the start. -/
inductive Fault where
  /-- The `length` bytes at `index` belong to no character. -/
  | invalid (length index : Nat)
  /-- The bytes end within the character that starts at `index`. -/
  | incomplete (index : Nat)
deriving DecidableEq, Repr, Inhabited

/-- The wording of a fault. -/
def Fault.message : Fault → String
  | invalid length index => s!"invalid utf-8 sequence of {length} bytes from index {index}"
  | incomplete index => s!"incomplete utf-8 byte sequence from index {index}"

/-- The ranges for the bytes behind the first byte of a character, in order; none when no character
starts with that byte. -/
def following? (first : UInt8) : Option (List (UInt8 × UInt8)) :=
  let any : UInt8 × UInt8 := (0x80, 0xbf)
  if first < 0x80 then some []
  else if first < 0xc2 then none
  else if first < 0xe0 then some [any]
  else if first = 0xe0 then some [(0xa0, 0xbf), any]
  else if first = 0xed then some [(0x80, 0x9f), any]
  else if first < 0xf0 then some [any, any]
  else if first = 0xf0 then some [(0x90, 0xbf), any, any]
  else if first < 0xf4 then some [any, any, any]
  else if first = 0xf4 then some [(0x80, 0x8f), any, any]
  else none

/-- Compares bytes with the ranges for the rest of a character that starts at `index` and of which
`length` bytes were read: gives the fault, or the bytes behind the character and their number. -/
def character (index length : Nat) :
    List (UInt8 × UInt8) → List UInt8 → Except Fault (Nat × List UInt8)
  | [], bytes => .ok (length, bytes)
  | _ :: _, [] => .error (.incomplete index)
  | (low, high) :: ranges, b :: bytes =>
    if low ≤ b ∧ b ≤ high then character index (length + 1) ranges bytes
    else .error (.invalid length index)

theorem character_length {index length : Nat} {ranges : List (UInt8 × UInt8)}
    {bytes rest : List UInt8} {n : Nat}
    (h : character index length ranges bytes = .ok (n, rest)) : rest.length ≤ bytes.length := by
  fun_induction character index length ranges bytes with
  | case1 length bytes =>
    obtain ⟨-, rfl⟩ := by simpa using h
    exact Nat.le_refl _
  | case2 => simp at h
  | case3 length low high ranges b bytes _ ih =>
    have := ih h
    simp only [List.length_cons]
    omega
  | case4 => simp at h

/-- The first fault in bytes that start at `index`. -/
def faultFrom? (index : Nat) : List UInt8 → Option Fault
  | [] => none
  | b :: bytes =>
    match following? b with
    | none => some (.invalid 1 index)
    | some ranges =>
      match h : character index 1 ranges bytes with
      | .error fault => some fault
      | .ok (n, rest) =>
        have := character_length h
        faultFrom? (index + n) rest
termination_by bytes => bytes.length

/-- The first fault in some bytes. -/
def fault? (bytes : ByteArray) : Option Fault := faultFrom? 0 bytes.toList

/-- The text that bytes spell, or the first fault in them. -/
def decode (bytes : ByteArray) : Except Fault String :=
  match String.fromUTF8? bytes with
  | some text => .ok text
  | none => .error ((fault? bytes).getD (.incomplete bytes.size))

/-- The bytes of a text spell that text. -/
theorem decode_toUTF8 (s : String) : decode s.toUTF8 = .ok s := by
  have h : String.fromUTF8? s.toUTF8 = some s := dif_pos s.isValidUTF8
  rw [decode, h]

end OffsideBench.Utf8

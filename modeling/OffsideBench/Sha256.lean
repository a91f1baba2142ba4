import OffsideBench.Text.Hex

/-!
# SHA-256

The digest by which a fixture is known. The message is extended by a one bit, zeros and its length
in bits to whole blocks of 64 bytes; each block gives a schedule of 64 words, which are mixed one
after another into a state of eight words.
-/

namespace OffsideBench.Sha256

/-- The state: eight words. -/
structure State where
  a : UInt32
  b : UInt32
  c : UInt32
  d : UInt32
  e : UInt32
  f : UInt32
  g : UInt32
  h : UInt32
deriving DecidableEq, Repr, Inhabited

/-- The state in front of the first block. -/
def State.start : State :=
  ⟨0x6a09e667, 0xbb67ae85, 0x3c6ef372, 0xa54ff53a, 0x510e527f, 0x9b05688c, 0x1f83d9ab, 0x5be0cd19⟩

/-- The words of a state in order. -/
def State.toList (s : State) : List UInt32 := [s.a, s.b, s.c, s.d, s.e, s.f, s.g, s.h]

/-- The sum of two states, word by word. -/
def State.add (s t : State) : State :=
  ⟨s.a + t.a, s.b + t.b, s.c + t.c, s.d + t.d, s.e + t.e, s.f + t.f, s.g + t.g, s.h + t.h⟩

/-- The constants of the 64 rounds. -/
def roundConstants : List UInt32 :=
  [0x428a2f98, 0x71374491, 0xb5c0fbcf, 0xe9b5dba5, 0x3956c25b, 0x59f111f1, 0x923f82a4, 0xab1c5ed5,
    0xd807aa98, 0x12835b01, 0x243185be, 0x550c7dc3, 0x72be5d74, 0x80deb1fe, 0x9bdc06a7, 0xc19bf174,
    0xe49b69c1, 0xefbe4786, 0x0fc19dc6, 0x240ca1cc, 0x2de92c6f, 0x4a7484aa, 0x5cb0a9dc, 0x76f988da,
    0x983e5152, 0xa831c66d, 0xb00327c8, 0xbf597fc7, 0xc6e00bf3, 0xd5a79147, 0x06ca6351, 0x14292967,
    0x27b70a85, 0x2e1b2138, 0x4d2c6dfc, 0x53380d13, 0x650a7354, 0x766a0abb, 0x81c2c92e, 0x92722c85,
    0xa2bfe8a1, 0xa81a664b, 0xc24b8b70, 0xc76c51a3, 0xd192e819, 0xd6990624, 0xf40e3585, 0x106aa070,
    0x19a4c116, 0x1e376c08, 0x2748774c, 0x34b0bcb5, 0x391c0cb3, 0x4ed8aa4a, 0x5b9cca4f, 0x682e6ff3,
    0x748f82ee, 0x78a5636f, 0x84c87814, 0x8cc70208, 0x90befffa, 0xa4506ceb, 0xbef9a3f7, 0xc67178f2]

/-- Rotates a word to the right. -/
def rotate (n x : UInt32) : UInt32 := (x >>> n) ||| (x <<< (32 - n))

/-- One round with the given constant and word of the schedule. -/
def State.round (s : State) (constant word : UInt32) : State :=
  let choice := (s.e &&& s.f) ^^^ (~~~s.e &&& s.g)
  let majority := (s.a &&& s.b) ^^^ (s.a &&& s.c) ^^^ (s.b &&& s.c)
  let t₁ := s.h + (rotate 6 s.e ^^^ rotate 11 s.e ^^^ rotate 25 s.e) + choice + constant + word
  let t₂ := (rotate 2 s.a ^^^ rotate 13 s.a ^^^ rotate 22 s.a) + majority
  ⟨t₁ + t₂, s.a, s.b, s.c, s.d + t₁, s.e, s.f, s.g⟩

/-- The next word of a schedule, from the sixteen words in front of it. -/
def scheduleWord (w : Array UInt32) : UInt32 :=
  let back (n : Nat) : UInt32 := w.getD (w.size - n) 0
  let low := rotate 7 (back 15) ^^^ rotate 18 (back 15) ^^^ (back 15 >>> 3)
  let high := rotate 17 (back 2) ^^^ rotate 19 (back 2) ^^^ (back 2 >>> 10)
  back 16 + low + back 7 + high

/-- The schedule of a block of sixteen words. -/
def schedule (block : Array UInt32) : Array UInt32 :=
  Nat.fold 48 (fun _ _ w => w.push (scheduleWord w)) block

/-- Mixes a block of sixteen words into the state. -/
def State.mix (s : State) (block : Array UInt32) : State :=
  s.add <| (roundConstants.zip (schedule block).toList).foldl (fun s (k, w) => s.round k w) s

/-- The last `n` bytes of a number, the most significant first. -/
def bigEndian (n value : Nat) : List UInt8 :=
  (List.range n).map fun i => (value >>> (8 * (n - 1 - i))).toUInt8

/-- A message extended to whole blocks. -/
def pad (message : Array UInt8) : Array UInt8 :=
  let zeros := (119 - message.size % 64) % 64
  message.push 0x80 ++ Array.replicate zeros 0 ++ bigEndian 8 (8 * message.size)

/-- The word whose bytes start at the given place. -/
def wordAt (bytes : Array UInt8) (i : Nat) : UInt32 :=
  let byte (k : Nat) : UInt32 := (bytes.getD (i + k) 0).toUInt32
  (byte 0 <<< 24) ||| (byte 1 <<< 16) ||| (byte 2 <<< 8) ||| byte 3

/-- The block of sixteen words whose bytes start at the given place. -/
def blockAt (bytes : Array UInt8) (i : Nat) : Array UInt32 :=
  (Array.range 16).map fun k => wordAt bytes (i + 4 * k)

/-- The digest of a message: 32 bytes. -/
def digest (message : ByteArray) : List UInt8 :=
  let padded := pad message.data
  let final := (padded.size / 64).fold (fun k _ s => State.mix s (blockAt padded (64 * k))) .start
  final.toList.flatMap fun w => bigEndian 4 w.toNat

/-- The digest of a message in lower-case digits. -/
def hexDigest (message : ByteArray) : String := Text.hex (digest message)

end OffsideBench.Sha256

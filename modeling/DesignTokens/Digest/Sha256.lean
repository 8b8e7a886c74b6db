/-!
# SHA-256

The secure hash algorithm of 256 bits over a sequence of bytes, and its text in lower-case
hexadecimal digits.
-/

set_option autoImplicit false

namespace DesignTokens.Sha256

/-- The round constants: the first 32 bits of the fractional parts of the cube roots of the first
sixty-four primes. -/
def roundConstants : Array UInt32 :=
  #[0x428a2f98, 0x71374491, 0xb5c0fbcf, 0xe9b5dba5, 0x3956c25b, 0x59f111f1, 0x923f82a4, 0xab1c5ed5,
    0xd807aa98, 0x12835b01, 0x243185be, 0x550c7dc3, 0x72be5d74, 0x80deb1fe, 0x9bdc06a7, 0xc19bf174,
    0xe49b69c1, 0xefbe4786, 0x0fc19dc6, 0x240ca1cc, 0x2de92c6f, 0x4a7484aa, 0x5cb0a9dc, 0x76f988da,
    0x983e5152, 0xa831c66d, 0xb00327c8, 0xbf597fc7, 0xc6e00bf3, 0xd5a79147, 0x06ca6351, 0x14292967,
    0x27b70a85, 0x2e1b2138, 0x4d2c6dfc, 0x53380d13, 0x650a7354, 0x766a0abb, 0x81c2c92e, 0x92722c85,
    0xa2bfe8a1, 0xa81a664b, 0xc24b8b70, 0xc76c51a3, 0xd192e819, 0xd6990624, 0xf40e3585, 0x106aa070,
    0x19a4c116, 0x1e376c08, 0x2748774c, 0x34b0bcb5, 0x391c0cb3, 0x4ed8aa4a, 0x5b9cca4f, 0x682e6ff3,
    0x748f82ee, 0x78a5636f, 0x84c87814, 0x8cc70208, 0x90befffa, 0xa4506ceb, 0xbef9a3f7, 0xc67178f2]

/-- The chaining value: eight words. -/
structure State where
  a : UInt32
  b : UInt32
  c : UInt32
  d : UInt32
  e : UInt32
  f : UInt32
  g : UInt32
  h : UInt32
  deriving DecidableEq, Repr, Inhabited

/-- The initial chaining value: the square roots of the first eight primes. -/
def State.initial : State :=
  ⟨0x6a09e667, 0xbb67ae85, 0x3c6ef372, 0xa54ff53a, 0x510e527f, 0x9b05688c, 0x1f83d9ab, 0x5be0cd19⟩

/-- Word-wise addition modulo `2 ^ 32`. -/
def State.add (s t : State) : State :=
  ⟨s.a + t.a, s.b + t.b, s.c + t.c, s.d + t.d, s.e + t.e, s.f + t.f, s.g + t.g, s.h + t.h⟩

/-- Rotation of a word to the right. -/
def rotateRight (x : UInt32) (n : UInt32) : UInt32 :=
  (x >>> n) ||| (x <<< (32 - n))

/-- The bits that complete a message of `length` bytes to whole blocks of 64 bytes. -/
def padding (length : Nat) : List UInt8 :=
  let bits := 8 * length
  let zeroCount := (119 - length % 64) % 64
  let lengthBytes := [56, 48, 40, 32, 24, 16, 8, 0].map fun (shift : Nat) =>
    UInt8.ofNat (bits >>> shift)
  (0x80 : UInt8) :: (List.replicate zeroCount 0 ++ lengthBytes)

/-- The big-endian words of a sequence of bytes. -/
def bytesToWords : List UInt8 → List UInt32
  | p :: q :: r :: s :: rest =>
    ((p.toUInt32 <<< 24) ||| (q.toUInt32 <<< 16) ||| (r.toUInt32 <<< 8) ||| s.toUInt32)
      :: bytesToWords rest
  | _ => []

/-- The next word of the message schedule. -/
def scheduleStep (w : Array UInt32) : Array UInt32 :=
  let t := w.size
  let x := w.getD (t - 15) 0
  let y := w.getD (t - 2) 0
  let s0 := rotateRight x 7 ^^^ rotateRight x 18 ^^^ (x >>> 3)
  let s1 := rotateRight y 17 ^^^ rotateRight y 19 ^^^ (y >>> 10)
  w.push (w.getD (t - 16) 0 + s0 + w.getD (t - 7) 0 + s1)

/-- The sixty-four words of the message schedule of one block. -/
def schedule (block : List UInt32) : Array UInt32 :=
  (List.range 48).foldl (fun w _ => scheduleStep w) block.toArray

/-- One round of compression. -/
def round (w : Array UInt32) (s : State) (t : Nat) : State :=
  let s1 := rotateRight s.e 6 ^^^ rotateRight s.e 11 ^^^ rotateRight s.e 25
  let choice := (s.e &&& s.f) ^^^ ((~~~ s.e) &&& s.g)
  let t1 := s.h + s1 + choice + roundConstants.getD t 0 + w.getD t 0
  let s0 := rotateRight s.a 2 ^^^ rotateRight s.a 13 ^^^ rotateRight s.a 22
  let majority := (s.a &&& s.b) ^^^ (s.a &&& s.c) ^^^ (s.b &&& s.c)
  ⟨t1 + (s0 + majority), s.a, s.b, s.c, s.d + t1, s.e, s.f, s.g⟩

/-- The chaining value after one block of sixteen words. -/
def compress (s : State) (block : List UInt32) : State :=
  s.add ((List.range 64).foldl (round (schedule block)) s)

/-- Compression of the given number of blocks, in order. -/
def compressBlocks : Nat → State → List UInt32 → State
  | 0, s, _ => s
  | count + 1, s, ws => compressBlocks count (compress s (ws.take 16)) (ws.drop 16)

/-- The words of the digest of a message. -/
def digest (message : List UInt8) : State :=
  let ws := bytesToWords (message ++ padding message.length)
  compressBlocks (ws.length / 16) State.initial ws

/-- A word as eight hexadecimal digits. -/
def hexWord (x : UInt32) : String :=
  String.ofList <| [28, 24, 20, 16, 12, 8, 4, 0].map fun shift =>
    Nat.digitChar ((x.toNat >>> shift) % 16)

/-- The digest of a message as sixty-four hexadecimal digits. -/
def hexDigest (message : List UInt8) : String :=
  let s := digest message
  "".intercalate ([s.a, s.b, s.c, s.d, s.e, s.f, s.g, s.h].map hexWord)

end DesignTokens.Sha256

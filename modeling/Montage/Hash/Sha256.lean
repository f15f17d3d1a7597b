/-!
# SHA-256

The digest of a list of bytes.  The message is followed by a one bit, by zeros, and by its length in
bits, so that it fills whole blocks of sixty-four bytes; each block is stretched into sixty-four
words and worked into a state of eight.  The widths stand in the types, so a digest has thirty-two
bytes whatever the rounds do.
-/

namespace Montage.Sha256

abbrev State := Vector UInt32 8

abbrev Block := Vector UInt32 16

/-! ## Constants -/

/-- The state before the first block: fractional parts of the square roots of the first primes. -/
def initial : State :=
  #v[0x6a09e667, 0xbb67ae85, 0x3c6ef372, 0xa54ff53a, 0x510e527f, 0x9b05688c, 0x1f83d9ab,
    0x5be0cd19]

/-- The word added in each round: fractional parts of the cube roots of the first primes. -/
def roundWords : Vector UInt32 64 :=
  #v[0x428a2f98, 0x71374491, 0xb5c0fbcf, 0xe9b5dba5, 0x3956c25b, 0x59f111f1, 0x923f82a4, 0xab1c5ed5,
    0xd807aa98, 0x12835b01, 0x243185be, 0x550c7dc3, 0x72be5d74, 0x80deb1fe, 0x9bdc06a7, 0xc19bf174,
    0xe49b69c1, 0xefbe4786, 0x0fc19dc6, 0x240ca1cc, 0x2de92c6f, 0x4a7484aa, 0x5cb0a9dc, 0x76f988da,
    0x983e5152, 0xa831c66d, 0xb00327c8, 0xbf597fc7, 0xc6e00bf3, 0xd5a79147, 0x06ca6351, 0x14292967,
    0x27b70a85, 0x2e1b2138, 0x4d2c6dfc, 0x53380d13, 0x650a7354, 0x766a0abb, 0x81c2c92e, 0x92722c85,
    0xa2bfe8a1, 0xa81a664b, 0xc24b8b70, 0xc76c51a3, 0xd192e819, 0xd6990624, 0xf40e3585, 0x106aa070,
    0x19a4c116, 0x1e376c08, 0x2748774c, 0x34b0bcb5, 0x391c0cb3, 0x4ed8aa4a, 0x5b9cca4f, 0x682e6ff3,
    0x748f82ee, 0x78a5636f, 0x84c87814, 0x8cc70208, 0x90befffa, 0xa4506ceb, 0xbef9a3f7, 0xc67178f2]

/-! ## Rounds -/

/-- The word with its bits moved to the right, those that fall off coming in on the left. -/
def rotateRight (x n : UInt32) : UInt32 := (x >>> n) ||| (x <<< (32 - n))

/-- The words of a block, then as many more as are asked for, each made of four before it.  The last
word stands first. -/
def stretch (block : Block) : Nat → List UInt32
  | 0 => block.toList.reverse
  | n + 1 =>
    let words := stretch block n
    let x := words.getD 14 0
    let y := words.getD 1 0
    let a := rotateRight x 7 ^^^ rotateRight x 18 ^^^ (x >>> 3)
    let b := rotateRight y 17 ^^^ rotateRight y 19 ^^^ (y >>> 10)
    (words.getD 15 0 + a + words.getD 6 0 + b) :: words

/-- One round with a word of the stretched block and a word of the round. -/
def round (s : State) (word constant : UInt32) : State :=
  let a := s[0]
  let b := s[1]
  let c := s[2]
  let e := s[4]
  let f := s[5]
  let g := s[6]
  let t := s[7] + (rotateRight e 6 ^^^ rotateRight e 11 ^^^ rotateRight e 25) +
    ((e &&& f) ^^^ (~~~e &&& g)) + constant + word
  let u := (rotateRight a 2 ^^^ rotateRight a 13 ^^^ rotateRight a 22) +
    ((a &&& b) ^^^ (a &&& c) ^^^ (b &&& c))
  #v[t + u, a, b, c, s[3] + t, e, f, g]

/-- Works a block into the state. -/
def compress (s : State) (block : Block) : State :=
  let mixed := ((stretch block 48).reverse.zip roundWords.toList).foldl
    (fun s (word, constant) => round s word constant) s
  Vector.zipWith (· + ·) s mixed

/-! ## Messages -/

/-- The zeros between the end mark and the length of a message of `size` bytes. -/
def zeros (size : Nat) : Nat := (119 - size % 64) % 64

/-- A number as eight bytes, the most significant one first. -/
def lengthBytes (n : Nat) : List UInt8 :=
  (List.range 8).map fun i => UInt8.ofNat (n >>> (8 * (7 - i)))

/-- The message with what makes it fill whole blocks. -/
def padded (message : List UInt8) : List UInt8 :=
  message ++ [0x80] ++ List.replicate (zeros message.length) 0 ++ lengthBytes (8 * message.length)

/-- The word at a place in the bytes, the most significant byte first. -/
def wordAt (bytes : Array UInt8) (start : Nat) : UInt32 :=
  (List.range 4).foldl (fun w i => (w <<< 8) ||| (bytes.getD (start + i) 0).toUInt32) 0

def blockAt (bytes : Array UInt8) (number : Nat) : Block :=
  Vector.ofFn fun i => wordAt bytes (64 * number + 4 * i)

def byteAt (s : State) (place : Fin 32) : UInt8 :=
  (s[place.val / 4] >>> UInt32.ofNat (8 * (3 - place % 4))).toUInt8

def digest (message : List UInt8) : Vector UInt8 32 :=
  let bytes := (padded message).toArray
  let blocks := (List.range (bytes.size / 64)).map (blockAt bytes)
  let final := blocks.foldl compress initial
  Vector.ofFn (byteAt final)

/-! ## Texts -/

/-- A byte as two lower-case hexadecimal digits. -/
def hexByte (b : UInt8) : List Char :=
  [Nat.digitChar (b.toNat / 16), Nat.digitChar (b.toNat % 16)]

def hexChars (s : String) : List Char :=
  (digest s.toUTF8.toList).toList.flatMap hexByte

/-- The digest of a text in lower-case hexadecimal. -/
def hex (s : String) : String := String.ofList (hexChars s)

end Montage.Sha256

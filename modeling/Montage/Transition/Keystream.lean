/-!
# A seeded stream of words

The words come from a stream cipher: a seed of sixty-four bits is stretched into a key of eight
words, and block after block of sixteen words is mixed from the key and a counter in twelve rounds.
A place in the stream is the number of the words before it, so what is drawn depends on the seed and
on how much was drawn, and on nothing else.
-/

namespace Montage.Transition

/-! ## The key -/

/-- The word with its bits moved to the left, those that fall off coming in on the right. -/
def rotateLeft (x : UInt32) (n : UInt32) : UInt32 := (x <<< n) ||| (x >>> (32 - n))

/-- One step of the sequence that a seed is stretched by. -/
def seedStep (s : UInt64) : UInt64 := s * 6364136223846793005 + 11634580027462260723

/-- The word that a member of the sequence gives. -/
def seedWord (s : UInt64) : UInt32 :=
  let x := (((s >>> 18) ^^^ s) >>> 27).toUInt32
  let n := (s >>> 59).toUInt32
  if n = 0 then x else rotateLeft x (32 - n)

/-- So many words of key. -/
def keyWords (s : UInt64) : Nat → List UInt32
  | 0 => []
  | n + 1 => seedWord (seedStep s) :: keyWords (seedStep s) n

/-! ## Blocks -/

abbrev Block := Vector UInt32 16

/-- Mixes four words of a block. -/
def quarterRound (b : Block) (i j k l : Fin 16) : Block :=
  let b := b.set i (b[i] + b[j])
  let b := b.set l (rotateLeft (b[l] ^^^ b[i]) 16)
  let b := b.set k (b[k] + b[l])
  let b := b.set j (rotateLeft (b[j] ^^^ b[k]) 12)
  let b := b.set i (b[i] + b[j])
  let b := b.set l (rotateLeft (b[l] ^^^ b[i]) 8)
  let b := b.set k (b[k] + b[l])
  b.set j (rotateLeft (b[j] ^^^ b[k]) 7)

/-- Mixes the columns, then the diagonals. -/
def doubleRound (b : Block) : Block :=
  let b := quarterRound b 0 4 8 12
  let b := quarterRound b 1 5 9 13
  let b := quarterRound b 2 6 10 14
  let b := quarterRound b 3 7 11 15
  let b := quarterRound b 0 5 10 15
  let b := quarterRound b 1 6 11 12
  let b := quarterRound b 2 7 8 13
  quarterRound b 3 4 9 14

/-- The block before it is mixed: four words of constants, the key, the counter in two words, two
zeros. -/
def startBlock (seed : UInt64) (counter : Nat) : Block :=
  let key := keyWords seed 8
  let words : List UInt32 :=
    [0x61707865, 0x3320646e, 0x79622d32, 0x6b206574] ++ key ++
      [UInt32.ofNat counter, UInt32.ofNat (counter / UInt32.size), 0, 0]
  Vector.ofFn fun i => words.getD i 0

/-- The block with the given number. -/
def block (seed : UInt64) (counter : Nat) : Block :=
  let start := startBlock seed counter
  let mixed := Nat.repeat doubleRound 6 start
  Vector.ofFn fun i => mixed[i] + start[i]

/-- The word at a place in the stream. -/
def word (seed : UInt64) (position : Nat) : UInt32 :=
  (block seed (position / 16)).get ⟨position % 16, Nat.mod_lt _ (by decide)⟩

end Montage.Transition

/-!
# Random numbers

The generator is the ChaCha stream cipher with twelve rounds: a key made from the seed, a block of
sixteen words for each value of a counter, and the words drawn one after the other. A generator is
its key and the number of words drawn, so the words are a function of the seed.
-/
namespace LabelBasic

/-- The sixteen words of the cipher. -/
abbrev ChaChaState := Vector UInt32 16

namespace ChaChaState

def rotateLeft (x : UInt32) (n : UInt32) : UInt32 := (x <<< n) ||| (x >>> (32 - n))

/-- Mixes four words. -/
def quarterRound (s : ChaChaState) (a b c d : Fin 16) : ChaChaState :=
  let s := s.set a (s[a] + s[b])
  let s := s.set d (rotateLeft (s[d] ^^^ s[a]) 16)
  let s := s.set c (s[c] + s[d])
  let s := s.set b (rotateLeft (s[b] ^^^ s[c]) 12)
  let s := s.set a (s[a] + s[b])
  let s := s.set d (rotateLeft (s[d] ^^^ s[a]) 8)
  let s := s.set c (s[c] + s[d])
  s.set b (rotateLeft (s[b] ^^^ s[c]) 7)

/-- A round over the columns and a round over the diagonals. -/
def doubleRound (s : ChaChaState) : ChaChaState :=
  let s := s.quarterRound 0 4 8 12
  let s := s.quarterRound 1 5 9 13
  let s := s.quarterRound 2 6 10 14
  let s := s.quarterRound 3 7 11 15
  let s := s.quarterRound 0 5 10 15
  let s := s.quarterRound 1 6 11 12
  let s := s.quarterRound 2 7 8 13
  s.quarterRound 3 4 9 14

/-- Six double rounds, added to where they started. -/
def block (s : ChaChaState) : ChaChaState :=
  s.zipWith (· + ·) (Nat.repeat doubleRound 6 s)

end ChaChaState

structure Generator where
  key : Vector UInt32 8
  /-- How many words are drawn. -/
  drawn : Nat
  deriving Repr

namespace Generator

/-- One step of the congruential generator that spreads a seed. -/
def spread (state : UInt64) : UInt64 := state * 6364136223846793005 + 11634580027462260723

/-- The word it shows: some middle bits, rotated by the highest ones. -/
def spreadWord (state : UInt64) : UInt32 :=
  let word := (((state >>> 18) ^^^ state) >>> 27).toUInt32
  let turns := (state >>> 59).toUInt32
  if turns = 0 then word else (word >>> turns) ||| (word <<< (32 - turns))

/-- A fresh generator with the key of this seed. -/
def ofSeed (seed : UInt64) : Generator where
  key := Vector.ofFn fun i => spreadWord (Nat.repeat spread (i.val + 1) seed)
  drawn := 0

instance : Inhabited Generator := ⟨ofSeed 0⟩

/-- The words every state of the cipher starts with. -/
def constants : Vector UInt32 4 := #v[0x61707865, 0x3320646e, 0x79622d32, 0x6b206574]

/-- The words a state ends with: the counter, low half first, and two zeros. -/
def counterWords (counter : Nat) : Vector UInt32 4 :=
  #v[UInt32.ofNat counter, UInt32.ofNat (counter >>> 32), 0, 0]

/-- The state of a block. -/
def state (g : Generator) (counter : Nat) : ChaChaState :=
  constants ++ g.key ++ counterWords counter

/-- A word of the stream. -/
def word (g : Generator) (n : Nat) : UInt32 := (g.state (n / 16)).block[n % 16]

/-- Draws the next word. -/
def draw (g : Generator) : UInt32 × Generator := (g.word g.drawn, { g with drawn := g.drawn + 1 })

end Generator

end LabelBasic

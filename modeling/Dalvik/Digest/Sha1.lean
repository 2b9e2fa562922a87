/-
# SHA-1

The signature of a container.  A message is padded to whole blocks of sixteen words; each block
changes a state of five words in eighty rounds.  The words of the rounds are produced by a sliding
window: the first sixteen are the block, and each further word is made from four of the sixteen
before it.
-/

namespace Dalvik.Sha1

/-! ## 1. Words and blocks -/

/-- The word rotated to the left. -/
def rotateLeft (w count : UInt32) : UInt32 :=
  w <<< count ||| w >>> (32 - count)

/-- The bytes of a number, highest first. -/
def bigEndian (width n : Nat) : List UInt8 :=
  (List.range width).reverse.map fun place => (n >>> (8 * place)).toUInt8

/-- The words of bytes, highest byte first. -/
def wordsOf : List UInt8 → List UInt32
  | a :: b :: c :: d :: rest =>
    (a.toUInt32 <<< 24 ||| b.toUInt32 <<< 16 ||| c.toUInt32 <<< 8 ||| d.toUInt32) :: wordsOf rest
  | _ => []

/-- The padding of a message: a one bit, zeros, and the length in bits in the last eight bytes. -/
def paddingOf (length : Nat) : List UInt8 :=
  0x80 :: List.replicate ((119 - length % 64) % 64) 0 ++ bigEndian 8 (8 * length)

/-- The first `count` blocks of words. -/
def blocks : (count : Nat) → List UInt32 → List (List UInt32)
  | 0, _ => []
  | count + 1, words => words.take 16 :: blocks count (words.drop 16)

/-! ## 2. Rounds -/

/-- The five words of the state. -/
structure State where
  a : UInt32
  b : UInt32
  c : UInt32
  d : UInt32
  e : UInt32
  deriving Repr, DecidableEq

/-- The state before the first block. -/
def State.initial : State :=
  ⟨0x67452301, 0xEFCDAB89, 0x98BADCFE, 0x10325476, 0xC3D2E1F0⟩

/-- The sum of two states, word by word. -/
def State.add (s t : State) : State :=
  ⟨s.a + t.a, s.b + t.b, s.c + t.c, s.d + t.d, s.e + t.e⟩

/-- The function of three words and the constant that a round uses. -/
def mix (round : Nat) (b c d : UInt32) : UInt32 × UInt32 :=
  if round < 20 then ((b &&& c) ||| (~~~b &&& d), 0x5A827999)
  else if round < 40 then (b ^^^ c ^^^ d, 0x6ED9EBA1)
  else if round < 60 then ((b &&& c) ||| (b &&& d) ||| (c &&& d), 0x8F1BBCDC)
  else (b ^^^ c ^^^ d, 0xCA62C1D6)

/-- One round with one word. -/
def State.round (round : Nat) (word : UInt32) (s : State) : State :=
  let (f, k) := mix round s.b s.c s.d
  ⟨rotateLeft s.a 5 + f + s.e + k + word, s.a, rotateLeft s.b 30, s.c, s.d⟩

/-- The next window of sixteen words. -/
def slide (window : List UInt32) : List UInt32 :=
  let word (i : Nat) := window.getD i 0
  window.drop 1 ++ [rotateLeft (word 13 ^^^ word 8 ^^^ word 2 ^^^ word 0) 1]

/-- The rounds that are left, the next of which uses the first word of the window. -/
def rounds : (left : Nat) → List UInt32 → State → State
  | 0, _, s => s
  | left + 1, window, s => rounds left (slide window) (s.round (79 - left) (window.headD 0))

/-- The state after one more block. -/
def State.block (s : State) (words : List UInt32) : State :=
  s.add (rounds 80 words s)

/-! ## 3. The digest -/

/-- The twenty bytes of the digest of a byte string. -/
def digest (bytes : List UInt8) : Vector UInt8 20 :=
  let padded := bytes ++ paddingOf bytes.length
  let s := (blocks (padded.length / 64) (wordsOf padded)).foldl State.block State.initial
  let out := [s.a, s.b, s.c, s.d, s.e].flatMap fun w => bigEndian 4 w.toNat
  Vector.ofFn fun i => out.getD i 0

end Dalvik.Sha1

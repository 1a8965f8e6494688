/-!
# Streams of random words

Sampling draws 64-bit words from a source. A source is any state with a step, so a statement about
sampling can range over all of them.

* `WordSource` — a state that yields words.
* `Xoshiro` — the reproducible source of an instance, expanded from one seed.
* `Cycle` — given words over and over.
* `drawUnit` — a draw from the interval from zero to below one.
-/

namespace ClosedLoop

/-- A state that yields one word after the other. -/
class WordSource (σ : Type) where
  next : σ → UInt64 × σ

/-! ### The reproducible source -/

/-- The state of a source with period `2 ^ 256 - 1`. -/
structure Xoshiro where
  a : UInt64
  b : UInt64
  c : UInt64
  d : UInt64
  deriving DecidableEq, Repr

namespace Xoshiro

/-- Rotates a word to the left. -/
def rotateLeft (x : UInt64) (k : UInt64) : UInt64 :=
  (x <<< k) ||| (x >>> (64 - k))

/-- Mixes the bits of a counter into a word. -/
def mix (z : UInt64) : UInt64 :=
  let z := (z ^^^ (z >>> 30)) * 0xbf58476d1ce4e5b9
  let z := (z ^^^ (z >>> 27)) * 0x94d049bb133111eb
  z ^^^ (z >>> 31)

/-- The distance between the counters that a seed is expanded from. -/
def increment : UInt64 := 0x9e3779b97f4a7c15

/-- The state expanded from a seed. -/
def ofSeed (seed : UInt64) : Xoshiro where
  a := mix (seed + increment)
  b := mix (seed + 2 * increment)
  c := mix (seed + 3 * increment)
  d := mix (seed + 4 * increment)

/-- The next word and the state after it. -/
def next (s : Xoshiro) : UInt64 × Xoshiro :=
  let word := rotateLeft (s.a + s.d) 23 + s.a
  let t := s.b <<< 17
  let c := s.c ^^^ s.a
  let d := s.d ^^^ s.b
  let b := s.b ^^^ c
  let a := s.a ^^^ d
  (word, ⟨a, b, c ^^^ t, rotateLeft d 45⟩)

instance : WordSource Xoshiro := ⟨next⟩

end Xoshiro

/-! ### Given words -/

/-- Words that are yielded over and over; without any word, zero. -/
structure Cycle where
  words : List UInt64
  rest : List UInt64

namespace Cycle

/-- The cycle from its start. -/
def ofList (words : List UInt64) : Cycle := ⟨words, words⟩

/-- The next word and the state after it. -/
def next (s : Cycle) : UInt64 × Cycle :=
  match s.rest, s.words with
  | w :: rest, _ => (w, { s with rest := rest })
  | [], w :: rest => (w, { s with rest := rest })
  | [], [] => (0, s)

instance : WordSource Cycle := ⟨next⟩

end Cycle

/-! ### Numbers from words -/

variable {σ : Type} [WordSource σ]

/-- One word. -/
def drawWord : StateM σ UInt64 := fun s => WordSource.next s

/-- The number from zero to below one that a word stands for: its upper 53 bits. -/
def unitOfWord (w : UInt64) : Float :=
  (w >>> 11).toFloat * Float.ofBits 0x3ca0000000000000

/-- The number from zero to below one in single precision: 24 of the upper bits of a word. -/
def unit32OfWord (w : UInt64) : Float32 :=
  (w >>> 40).toFloat32 * Float32.ofBits 0x33800000

/-- A number from zero to below one. -/
def drawUnit : StateM σ Float := do return unitOfWord (← drawWord)

end ClosedLoop

/-!
# XXH32

The hash of 32 bits over the words of the input: stripes of four words go into four lanes,
then the words and the bytes that are left into the accumulator.
-/

namespace Enil.Lib.XXH32

def prime1 : UInt32 := 0x9E3779B1
def prime2 : UInt32 := 0x85EBCA77
def prime3 : UInt32 := 0xC2B2AE3D
def prime4 : UInt32 := 0x27D4EB2F
def prime5 : UInt32 := 0x165667B1

def rotateLeft (x n : UInt32) : UInt32 := x <<< n ||| x >>> (32 - n)

/-- The bytes as a number, the lowest first. -/
def littleEndian : List UInt8 → Nat
  | [] => 0
  | b :: s => b.toNat + 256 * littleEndian s

def word (s : List UInt8) : UInt32 := UInt32.ofNat (littleEndian (s.take 4))

structure Lanes where
  acc1 : UInt32
  acc2 : UInt32
  acc3 : UInt32
  acc4 : UInt32

def round (acc lane : UInt32) : UInt32 := rotateLeft (acc + lane * prime2) 13 * prime1

namespace Lanes

def init (seed : UInt32) : Lanes where
  acc1 := seed + prime1 + prime2
  acc2 := seed + prime2
  acc3 := seed + 0
  acc4 := seed - prime1

/-- The lanes behind the first stripe. -/
def stripe (l : Lanes) (s : List UInt8) : Lanes where
  acc1 := round l.acc1 (word s)
  acc2 := round l.acc2 (word (s.drop 4))
  acc3 := round l.acc3 (word (s.drop 8))
  acc4 := round l.acc4 (word (s.drop 12))

def converge (l : Lanes) : UInt32 :=
  rotateLeft l.acc1 1 + rotateLeft l.acc2 7 + rotateLeft l.acc3 12 + rotateLeft l.acc4 18

end Lanes

/-- The stripes, and the input that is left. -/
def stripes (l : Lanes) (s : List UInt8) : Lanes × List UInt8 :=
  if 16 ≤ s.length then stripes (l.stripe s) (s.drop 16) else (l, s)
termination_by s.length
decreasing_by
  rw [List.length_drop]
  omega

/-- The words, and the input that is left. -/
def tailWords (acc : UInt32) (s : List UInt8) : UInt32 × List UInt8 :=
  if 4 ≤ s.length then tailWords (rotateLeft (acc + word s * prime3) 17 * prime4) (s.drop 4)
  else (acc, s)
termination_by s.length
decreasing_by
  rw [List.length_drop]
  omega

def tailBytes (acc : UInt32) (s : List UInt8) : UInt32 :=
  s.foldl (fun acc b => rotateLeft (acc + b.toUInt32 * prime5) 11 * prime1) acc

def avalanche (acc : UInt32) : UInt32 :=
  let acc := acc ^^^ acc >>> 15
  let acc := acc * prime2
  let acc := acc ^^^ acc >>> 13
  let acc := acc * prime3
  acc ^^^ acc >>> 16

/-- The accumulator behind the stripes, and the input that is left. -/
def converged (seed : UInt32) (input : List UInt8) : UInt32 × List UInt8 :=
  if input.length < 16 then (seed + prime5, input)
  else
    let (l, rest) := stripes (.init seed) input
    (l.converge, rest)

def xxh32 (seed : UInt32) (input : List UInt8) : UInt32 :=
  let (acc, rest) := converged seed input
  let (acc, rest) := tailWords (acc + UInt32.ofNat input.length) rest
  avalanche (tailBytes acc rest)

end Enil.Lib.XXH32

/-!
The ChaCha stream cipher with twelve rounds as a source of random words. A block is a function of
the key and the block's number, so any part of the stream can be told without the parts before it.
-/

namespace LossWatch.ChaCha

abbrev Key := List UInt32

def rotateLeft (x n : UInt32) : UInt32 := (x <<< n) ||| (x >>> (32 - n))

def quarterRound (s : Array UInt32) (ia ib ic id : Nat) : Array UInt32 :=
  let a := s.getD ia 0
  let b := s.getD ib 0
  let c := s.getD ic 0
  let d := s.getD id 0
  let a := a + b
  let d := rotateLeft (d ^^^ a) 16
  let c := c + d
  let b := rotateLeft (b ^^^ c) 12
  let a := a + b
  let d := rotateLeft (d ^^^ a) 8
  let c := c + d
  let b := rotateLeft (b ^^^ c) 7
  (((s.setIfInBounds ia a).setIfInBounds ib b).setIfInBounds ic c).setIfInBounds id d

def doubleRound (s : Array UInt32) : Array UInt32 :=
  let s := quarterRound s 0 4 8 12
  let s := quarterRound s 1 5 9 13
  let s := quarterRound s 2 6 10 14
  let s := quarterRound s 3 7 11 15
  let s := quarterRound s 0 5 10 15
  let s := quarterRound s 1 6 11 12
  let s := quarterRound s 2 7 8 13
  quarterRound s 3 4 9 14

/-- The cipher's constant, the key, the block number low word first, and a zero nonce. -/
def start (key : Key) (number : UInt64) : Array UInt32 :=
  let constant : List UInt32 := [0x61707865, 0x3320646e, 0x79622d32, 0x6b206574]
  (constant ++ key ++ [number.toUInt32, (number >>> 32).toUInt32, 0, 0]).toArray

def block (key : Key) (number : UInt64) : List UInt32 :=
  let s := start key number
  let mixed := (List.range 6).foldl (fun s _ => doubleRound s) s
  (Array.zipWith (· + ·) mixed s).toList

end LossWatch.ChaCha

import Orchestration.Digest.Words

/-! # BLAKE3

A message is cut into chunks of 1024 bytes and a chunk into blocks of 64.  The chaining values of
the chunks are joined in pairs, level by level, until two are left for the root.
-/

set_option autoImplicit false

namespace Orchestration.Digest.Blake3

/-- The eight words that stand for a chunk or a subtree. -/
abbrev Chaining : Type := List UInt32

def start : Chaining :=
  [0x6a09e667, 0xbb67ae85, 0x3c6ef372, 0xa54ff53a, 0x510e527f, 0x9b05688c, 0x1f83d9ab, 0x5be0cd19]

/-- Where each message word goes between two rounds. -/
def permutation : List Nat := [2, 6, 3, 10, 7, 0, 4, 13, 1, 11, 12, 5, 9, 14, 15, 8]

def chunkStart : UInt32 := 1

def chunkEnd : UInt32 := 2

def parent : UInt32 := 4

def root : UInt32 := 8

def mix (state : Array UInt32) (a b c d : Nat) (x y : UInt32) : Array UInt32 :=
  let lane (i : Nat) := state.getD i 0
  let a₁ := lane a + lane b + x
  let d₁ := rotateRight (lane d ^^^ a₁) 16
  let c₁ := lane c + d₁
  let b₁ := rotateRight (lane b ^^^ c₁) 12
  let a₂ := a₁ + b₁ + y
  let d₂ := rotateRight (d₁ ^^^ a₂) 8
  let c₂ := c₁ + d₂
  let b₂ := rotateRight (b₁ ^^^ c₂) 7
  (((state.setIfInBounds a a₂).setIfInBounds b b₂).setIfInBounds c c₂).setIfInBounds d d₂

def lanes : List (Nat × Nat × Nat × Nat) :=
  [(0, 4, 8, 12), (1, 5, 9, 13), (2, 6, 10, 14), (3, 7, 11, 15),
   (0, 5, 10, 15), (1, 6, 11, 12), (2, 7, 8, 13), (3, 4, 9, 14)]

def round (state words : Array UInt32) : Array UInt32 :=
  lanes.zipIdx.foldl (fun s ((a, b, c, d), i) =>
    mix s a b c d (words.getD (2 * i) 0) (words.getD (2 * i + 1) 0)) state

def rounds : Nat → Array UInt32 → Array UInt32 → Array UInt32
  | 0, state, _ => state
  | more + 1, state, words =>
    rounds more (round state words) (permutation.map fun i => words.getD i 0).toArray

def compress (chaining : Chaining) (words : Array UInt32) (counter length : Nat) (flags : UInt32) :
    Chaining :=
  let state := (chaining ++ start.take 4 ++
    [UInt32.ofNat counter, UInt32.ofNat (counter >>> 32), UInt32.ofNat length, flags]).toArray
  let final := (rounds 7 state words).toList
  (final.take 8).zipWith (· ^^^ ·) (final.drop 8)

/-- Takes the blocks of a chunk into a chaining value; the flags of the chunk's end go with the last
block. -/
def compressBlocks (counter : Nat) (last : UInt32) :
    UInt32 → Chaining → List (List UInt8) → Chaining
  | _, chaining, [] => chaining
  | first, chaining, [block] =>
    compress chaining (littleWords (block ++ List.replicate (64 - block.length) 0)) counter
      block.length (first ||| chunkEnd ||| last)
  | first, chaining, block :: next :: rest =>
    compressBlocks counter last 0 (compress chaining (littleWords block) counter 64 first)
      (next :: rest)

/-- The chaining value of a chunk; an empty chunk has one empty block. -/
def chunk (last : UInt32) (counter : Nat) (bytes : List UInt8) : Chaining :=
  compressBlocks counter last chunkStart start (if bytes.isEmpty then [[]] else blocks 64 bytes)

def join (flags : UInt32) (left right : Chaining) : Chaining :=
  compress start (left ++ right).toArray 0 64 (parent ||| flags)

/-- One level up: neighbours are joined, and one left over is kept. -/
def joinPairs : List Chaining → List Chaining
  | left :: right :: rest => join 0 left right :: joinPairs rest
  | rest => rest

/-- Goes up until the root joins two chaining values. -/
def climb : Nat → List Chaining → Chaining
  | _, [left, right] => join root left right
  | 0, _ => start
  | more + 1, level => climb more (joinPairs level)

def digest (bytes : List UInt8) : List UInt8 :=
  let words := match blocks 1024 bytes with
    | [] => chunk root 0 []
    | [only] => chunk root 0 only
    | chunks => climb chunks.length (chunks.zipIdx.map fun (bytes, i) => chunk 0 i bytes)
  words.flatMap fun word => littleBytes 4 word.toNat

end Orchestration.Digest.Blake3

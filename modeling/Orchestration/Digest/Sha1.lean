import Orchestration.Digest.Words

/-! # SHA-1
-/

set_option autoImplicit false

namespace Orchestration.Digest.Sha1

structure State where
  a : UInt32
  b : UInt32
  c : UInt32
  d : UInt32
  e : UInt32

def start : State := ⟨0x67452301, 0xefcdab89, 0x98badcfe, 0x10325476, 0xc3d2e1f0⟩

/-- Extends the schedule, latest word first, by a number of words. -/
def extend : Nat → List UInt32 → List UInt32
  | 0, words => words
  | more + 1, words =>
    let word (i : Nat) := words.getD i 0
    extend more (rotateLeft (word 2 ^^^ word 7 ^^^ word 13 ^^^ word 15) 1 :: words)

def mix (s : State) (i : Nat) : UInt32 × UInt32 :=
  match i / 20 with
  | 0 => ((s.b &&& s.c) ||| (~~~s.b &&& s.d), 0x5a827999)
  | 1 => (s.b ^^^ s.c ^^^ s.d, 0x6ed9eba1)
  | 2 => ((s.b &&& s.c) ||| (s.b &&& s.d) ||| (s.c &&& s.d), 0x8f1bbcdc)
  | _ => (s.b ^^^ s.c ^^^ s.d, 0xca62c1d6)

def step (s : State) (word : UInt32) (i : Nat) : State :=
  let (mixed, constant) := mix s i
  ⟨rotateLeft s.a 5 + mixed + s.e + constant + word, s.a, rotateLeft s.b 30, s.c, s.d⟩

def compress (s : State) (block : List UInt8) : State :=
  let schedule := (extend 64 (bigWords32 block).reverse).reverse
  let t := schedule.zipIdx.foldl (fun s (word, i) => step s word i) s
  ⟨s.a + t.a, s.b + t.b, s.c + t.c, s.d + t.d, s.e + t.e⟩

def digest (bytes : List UInt8) : List UInt8 :=
  let s := (blocks 64 (pad 64 8 bigBytes bytes)).foldl compress start
  [s.a, s.b, s.c, s.d, s.e].flatMap fun word => bigBytes 4 word.toNat

end Orchestration.Digest.Sha1

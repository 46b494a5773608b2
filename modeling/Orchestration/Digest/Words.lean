import Orchestration.Text.Integer

/-! # Bytes and words for digests

What the digest functions share: cutting a message into blocks, reading words in either byte order,
padding, and the hexadecimal text of a digest.
-/

set_option autoImplicit false

namespace Orchestration.Digest

/-- Cuts off at most `count` blocks of `size` bytes; the last may be shorter. -/
def takeBlocks (size : Nat) : Nat → List UInt8 → List (List UInt8)
  | 0, _ => []
  | _ + 1, [] => []
  | count + 1, bytes => bytes.take size :: takeBlocks size count (bytes.drop size)

def blocks (size : Nat) (bytes : List UInt8) : List (List UInt8) :=
  takeBlocks size bytes.length bytes

/-- The number whose base-256 digits are the bytes, most significant first. -/
def bigEndian (bytes : List UInt8) : Nat :=
  bytes.foldl (fun value byte => 256 * value + byte.toNat) 0

def littleBytes : Nat → Nat → List UInt8
  | 0, _ => []
  | count + 1, value => UInt8.ofNat value :: littleBytes count (value / 256)

def bigBytes (count value : Nat) : List UInt8 :=
  (littleBytes count value).reverse

def littleWords (block : List UInt8) : Array UInt32 :=
  ((blocks 4 block).map fun bytes => UInt32.ofNat (bigEndian bytes.reverse)).toArray

def bigWords32 (block : List UInt8) : List UInt32 :=
  (blocks 4 block).map fun bytes => UInt32.ofNat (bigEndian bytes)

def bigWords64 (block : List UInt8) : List UInt64 :=
  (blocks 8 block).map fun bytes => UInt64.ofNat (bigEndian bytes)

/-- A message with its padding: one bit, zeros, and the length in bits in the last bytes of a whole
number of blocks. -/
def pad (block lengthBytes : Nat) (length : Nat → Nat → List UInt8) (bytes : List UInt8) :
    List UInt8 :=
  let used := (bytes.length + 1 + lengthBytes) % block
  let zeros := if used = 0 then 0 else block - used
  bytes ++ 0x80 :: (List.replicate zeros 0 ++ length lengthBytes (8 * bytes.length))

def rotateLeft (x : UInt32) (n : UInt32) : UInt32 :=
  (x <<< n) ||| (x >>> (32 - n))

def rotateRight (x : UInt32) (n : UInt32) : UInt32 :=
  (x >>> n) ||| (x <<< (32 - n))

def rotateRight64 (x : UInt64) (n : UInt64) : UInt64 :=
  (x >>> n) ||| (x <<< (64 - n))

def hex (bytes : List UInt8) : String :=
  String.ofList (bytes.flatMap fun b =>
    [Text.hexDigit (b.toNat / 16), Text.hexDigit (b.toNat % 16)])

end Orchestration.Digest

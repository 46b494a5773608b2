import Orchestration.Digest.Blake3
import Orchestration.Digest.Md5
import Orchestration.Digest.Sha1
import Orchestration.Digest.Sha2

/-! # Digests by name
-/

set_option autoImplicit false

namespace Orchestration.Digest

def supported : List String :=
  ["md5", "sha1", "sha224", "sha256", "sha384", "sha512", "blake3"]

def function? (name : String) : Option (List UInt8 → List UInt8) :=
  match name with
  | "md5" => some Md5.digest
  | "sha1" => some Sha1.digest
  | "sha224" => some Sha2.sha224
  | "sha256" => some Sha2.sha256
  | "sha384" => some Sha2.sha384
  | "sha512" => some Sha2.sha512
  | "blake3" => some Blake3.digest
  | _ => none

def hexOfText (digest : List UInt8 → List UInt8) (text : String) : String :=
  hex (digest text.toUTF8.toList)

def named? (name text : String) : Option String :=
  (function? name).map fun digest => hexOfText digest text

theorem supported_iff (name : String) : (function? name).isSome ↔ name ∈ supported := by
  unfold function? supported
  split <;> simp_all

end Orchestration.Digest

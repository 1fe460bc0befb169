import SshKeys.Hash.Sha256
/-!
# An endless supply of bytes

The digests of a seed together with a running number.
-/
namespace SshKeys

structure Entropy where
  seed : Bytes
  count : Nat
  deriving DecidableEq, Repr

namespace Entropy

/-- The next digests behind `acc`, `blocks` of them. -/
def digests : Nat → Bytes → Entropy → Bytes × Entropy
  | 0, acc, e => (acc, e)
  | blocks + 1, acc, e =>
    digests blocks (acc ++ Sha256.digest (e.seed ++ Bytes.ofNat 8 e.count))
      { e with count := e.count + 1 }

def draw (size : Nat) (e : Entropy) : Bytes × Entropy :=
  let (bs, e) := digests ((size + 31) / 32) [] e
  (bs.take size, e)

end Entropy
end SshKeys

import SshKeys.Hash
/-!
# Secret numbers for signatures

They are drawn from the private key and the message so that no two messages share one: a chain of
keyed hashes yields candidates until one lies in range.
-/
namespace SshKeys.Nonce

structure State where
  key : Bytes
  value : Bytes
  deriving DecidableEq, Repr

/-- Works `data` into the chain behind a marking byte. -/
def absorb (hash : Hash) (s : State) (mark : UInt8) (data : Bytes) : State :=
  let key := hash.hmac s.key (s.value ++ mark :: data)
  ⟨key, hash.hmac key s.value⟩

def start (hash : Hash) (secret message : Bytes) : State :=
  let s : State := ⟨Bytes.zeros hash.digestSize, List.replicate hash.digestSize 1⟩
  absorb hash (absorb hash s 0 (secret ++ message)) 1 (secret ++ message)

/-- The next values of the chain, at least `size` bytes for enough `steps`. -/
def squeeze (hash : Hash) : Nat → State → Bytes → Bytes × State
  | 0, s, acc => (acc, s)
  | steps + 1, s, acc =>
    let value := hash.hmac s.key s.value
    squeeze hash steps ⟨s.key, value⟩ (acc ++ value)

def leftmost (bits : Nat) (bs : Bytes) : Nat :=
  Bytes.toNat bs / Nat.pow 2 (8 * bs.length - bits)

def next (hash : Hash) (bits : Nat) (s : State) : Nat × State :=
  let (bs, s) := squeeze hash ((bits + 8 * hash.digestSize - 1) / (8 * hash.digestSize)) s []
  (leftmost bits bs, absorb hash s 0 [])

/-- The first answer that `attempt` gives on a number from 1 up to below `order`, within `tries`
candidates. -/
def search {α : Type} (hash : Hash) (order : Nat) (attempt : Nat → Option α) :
    Nat → State → Option α
  | 0, _ => none
  | tries + 1, s =>
    let (k, s) := next hash (Bytes.bitLength order) s
    match if 0 < k ∧ k < order then attempt k else none with
    | some a => some a
    | none => search hash order attempt tries s

end SshKeys.Nonce

import SshKeys.Entropy
import SshKeys.Error
/-!
# Actions and their surroundings

What an operation takes from its surroundings and leaves in them: a supply of random bytes for
salts, initial vectors and check numbers, which yields zeros once it has run dry; an endless supply
from which new keys are made; and a list of log records. All survive a failure, so an action that
fails has still drawn its bytes and written its records.
-/
namespace SshKeys

inductive Level
  | debug
  | info
  | warning
  | error
  | critical
  deriving DecidableEq, Repr

namespace Level

def all : List Level := [debug, info, warning, error, critical]

def name : Level → String
  | debug => "DEBUG"
  | info => "INFO"
  | warning => "WARNING"
  | error => "ERROR"
  | critical => "CRITICAL"

def severity : Level → Nat
  | debug => 10
  | info => 20
  | warning => 30
  | error => 40
  | critical => 50

end Level

inductive Source
  | cipher
  | envelope
  | pem
  | file
  deriving DecidableEq, Repr

def Source.name : Source → String
  | cipher => "sshkeyfile.cipher"
  | envelope => "sshkeyfile.opensshkey"
  | pem => "sshkeyfile.pemkey"
  | file => "sshkeyfile.keyfile"

structure Record where
  level : Level
  source : Source
  message : String
  deriving DecidableEq, Repr

/-- The random bytes still to come, and the records so far, last first. -/
structure Journal where
  supply : Bytes
  entropy : Entropy
  written : List Record
  deriving DecidableEq, Repr

abbrev Action := EStateM Error Journal

namespace Journal

def records (j : Journal) : List Record := j.written.reverse

def draw (count : Nat) : Action Bytes := fun j =>
  let got := j.supply.take count
  .ok (got ++ Bytes.zeros (count - got.length)) { j with supply := j.supply.drop count }

def drawEndless (count : Nat) : Action Bytes := fun j =>
  let (bs, entropy) := j.entropy.draw count
  .ok bs { j with entropy }

def log (level : Level) (source : Source) (message : String) : Action Unit := fun j =>
  .ok () { j with written := ⟨level, source, message⟩ :: j.written }

end Journal

def Action.ofExcept {α : Type} : Except Error α → Action α
  | .ok a => pure a
  | .error e => throw e

end SshKeys

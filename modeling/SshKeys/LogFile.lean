import SshKeys.Journal
/-!
# The log as a file

A line for each record that belongs to the library and is severe enough.
-/
namespace SshKeys.LogFile

structure Entry where
  author : String
  level : Level
  message : String
  deriving DecidableEq, Repr

def libraryName : String := "sshkeyfile"

def belongs (author : String) : Bool :=
  author == libraryName || (libraryName ++ ".").toList.isPrefixOf author.toList

/-- The least severity that is written for a requested one; zero asks for no severity of its own, so
that warnings are the least. -/
def threshold (requested : Int) : Int :=
  if requested = 0 then Int.ofNat Level.warning.severity else requested

def isWritten (requested : Int) (e : Entry) : Bool :=
  belongs e.author && threshold requested ≤ Int.ofNat e.level.severity

/-- One record, with its time left empty. -/
def line (e : Entry) : String :=
  let level := String.ofList (e.level.name.toList.take 3)
  s!"{level} [] thr=1   {e.author}: {e.message}\n"

/-- What a file holds after some records; without a request for a file nothing is written. -/
def contents (requests : Nat) (requested : Int) (entries : List Entry) : String :=
  if requests = 0 then "" else String.join ((entries.filter (isWritten requested)).map line)

def opened (requests : Nat) : Nat := min requests 1

end SshKeys.LogFile

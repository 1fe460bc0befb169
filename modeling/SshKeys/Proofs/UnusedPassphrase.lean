import SshKeys.Proofs.PrivateLoading
import SshKeys.Proofs.PublicForm
/-!
# A passphrase that is not needed is not used

What a file gives without a passphrase it gives under every passphrase: wherever a passphrase would
be used, the run without one has failed. Two runs are compared step by step, and the second may
start from another journal than the first.
-/
namespace SshKeys

namespace Action

variable {α β : Type} {x y : Action α} {f g : α → Action β} {e : Error}

/-- What some run of the first action gives, every run of the second gives too. -/
def Foretells (x y : Action α) : Prop := ∀ j a j', x j = .ok a j' → y.Yields a

theorem Settled.foretells (h : x.Settled) : x.Foretells x := fun _ _ _ hRun => h.yields hRun

theorem foretells_pure (a : α) : Foretells (pure a) (pure a) := (settled_pure a).foretells

theorem foretells_ofExcept (r : Except Error α) : Foretells (ofExcept r) (ofExcept r) :=
  (settled_ofExcept r).foretells

theorem foretells_log (level : Level) (source : Source) (message : String) :
    Foretells (Journal.log level source message) (Journal.log level source message) :=
  (settled_log level source message).foretells

theorem throw_foretells (e : Error) (y : Action α) : Foretells (throw e) y := by
  intro j a j' h
  cases h

theorem Foretells.bind (h : x.Foretells y) (hNext : ∀ a, (f a).Foretells (g a)) :
    (x >>= f).Foretells (y >>= g) := by
  intro j b j' hRun
  obtain ⟨a, i, hFirst, hSecond⟩ := Stateful.bind_eq_ok_iff.mp hRun
  exact (h j a i hFirst).bind (hNext a i b j' hSecond)

theorem Foretells.map (h : x.Foretells y) (f : α → β) : (f <$> x).Foretells (f <$> y) := by
  intro j b j' hRun
  obtain ⟨a, hFirst, rfl⟩ := Stateful.map_eq_ok_iff.mp hRun
  exact (h j a j' hFirst).map

end Action

open SshKeys.Action

variable {absent : Datum} (hAbsent : absent.isEmpty = true) (passphrase : Datum)
include hAbsent

theorem CipherSuite.decrypt_foretells (suite : CipherSuite) (s : Stretching) (text : Bytes) :
    (suite.decrypt s absent text).Foretells (suite.decrypt s passphrase text) := by
  refine (foretells_ofExcept _).bind fun _ => ?_
  cases hNone : suite.isNone with
  | true => exact foretells_pure text
  | false =>
    -- A cipher that encrypts asks for the passphrase first, and the run without one stops there.
    intro j a j' h
    rw [if_neg Bool.false_ne_true, if_pos hAbsent] at h
    cases h

namespace Envelope

theorem decrypt_foretells (e : Envelope) :
    (e.decrypt absent).Foretells (e.decrypt passphrase) := by
  refine (foretells_ofExcept _).bind fun suite => ?_
  refine (suite.decrypt_foretells hAbsent passphrase _ _).bind fun plain => ?_
  exact foretells_ofExcept _

theorem unlock_foretells (raw : Bytes) : (unlock raw absent).Foretells (unlock raw passphrase) := by
  refine (settled_load raw).foretells.bind fun e => ?_
  exact (e.decrypt_foretells hAbsent passphrase).bind fun s => foretells_pure _

theorem decodeKeys_foretells (data : Datum) :
    (decodeKeys data absent).Foretells (decodeKeys data passphrase) := by
  rw [decodeKeys_eq, decodeKeys_eq]
  exact (foretells_ofExcept _).bind (unlock_foretells hAbsent passphrase)

end Envelope

namespace PemBlock

theorem decrypt_foretells (b : PemBlock) (procType : String) :
    (b.decrypt procType absent).Foretells (b.decrypt procType passphrase) := by
  intro j plain j' h
  obtain ⟨found, i, hFound, -⟩ := Stateful.bind_eq_ok_iff.mp h
  obtain ⟨hGiven, -⟩ := accepted_of_checkHeaders (Action.ofExcept_eq_ok_iff.mp hFound).1
  exact absurd hAbsent (Bool.eq_false_iff.mp hGiven)

theorem readPrivate_foretells (b : PemBlock) (kind : PemKind) :
    (b.readPrivate kind absent).Foretells (b.readPrivate kind passphrase) := by
  by_cases hKind : kind = .encryptedPrivate
  · simp only [readPrivate, if_pos hKind]
    rw [if_pos hAbsent]
    exact throw_foretells _ _
  · simp only [readPrivate, if_neg hKind]
    cases b.header "proc-type" with
    | none => exact foretells_ofExcept _
    | some procType =>
      exact (b.decrypt_foretells hAbsent passphrase procType).bind fun _ => foretells_ofExcept _

theorem loadPrivate_foretells (data : Datum) :
    (loadPrivate data absent).Foretells (loadPrivate data passphrase) := by
  refine (foretells_ofExcept _).bind fun b => ?_
  refine (foretells_ofExcept _).bind fun kind => ?_
  refine (foretells_log _ _ _).bind fun _ => ?_
  exact (b.readPrivate_foretells hAbsent passphrase kind).bind fun _ => foretells_ofExcept _

end PemBlock

namespace KeyFile

theorem keysIn_foretells (container : Container) (data : Datum) :
    (keysIn container data absent).Foretells (keysIn container data passphrase) := by
  by_cases hContainer : container = .openssh
  · simp only [keysIn, if_pos hContainer]
    exact Envelope.decodeKeys_foretells hAbsent passphrase data
  · simp only [keysIn, if_neg hContainer]
    exact (PemBlock.loadPrivate_foretells hAbsent passphrase data).map _

theorem loadFrom_foretells (container : Container) (data : Datum) :
    (loadFrom container data absent).Foretells (loadFrom container data passphrase) := by
  cases hPublic : container.isPublic with
  | true =>
    rw [loadFrom, if_pos hPublic]
    exact throw_foretells _ _
  | false =>
    rw [loadFrom_eq hPublic, loadFrom_eq hPublic]
    refine (keysIn_foretells hAbsent passphrase container data).bind fun keys => ?_
    exact (foretells_log _ _ _).bind fun _ => foretells_pure keys

theorem loadPrivateKeys_foretells (data : Datum) :
    (loadPrivateKeys data absent).Foretells (loadPrivateKeys data passphrase) :=
  (Container.settled_identify data).foretells.bind fun found =>
    loadFrom_foretells hAbsent passphrase found.1 data

theorem parsePrivateKey_foretells (data : Datum) :
    (parsePrivateKey data absent).Foretells (parsePrivateKey data passphrase) := by
  refine (loadPrivateKeys_foretells hAbsent passphrase data).bind fun keys => ?_
  match keys with
  | [] => exact throw_foretells _ _
  | [key] => exact foretells_pure key
  | key :: _ :: _ => exact (foretells_log _ _ _).bind fun _ => foretells_pure key

theorem parse_foretells (data : Datum) :
    (parse data absent).Foretells (parse data passphrase) := by
  rw [parse_eq, parse_eq]
  refine (Container.settled_identify data).foretells.bind fun found => ?_
  cases found.1.isPublic with
  | true => exact foretells_ofExcept _
  | false => exact parsePrivateKey_foretells hAbsent passphrase data

omit passphrase in
/-- A key that is read without a passphrase, and a list of private keys that is loaded without one, is
what any passphrase gives. -/
theorem passphrase_unused (data : Datum) :
    (∀ j k j', parse data absent j = .ok k j' →
      ∀ passphrase : Datum, (parse data passphrase).Yields k) ∧
    ∀ j keys j', loadPrivateKeys data absent j = .ok keys j' →
      ∀ passphrase : Datum, (loadPrivateKeys data passphrase).Yields keys := by
  constructor
  · intro j k j' hParse passphrase
    exact parse_foretells hAbsent passphrase data j k j' hParse
  · intro j keys j' hLoad passphrase
    exact loadPrivateKeys_foretells hAbsent passphrase data j keys j' hLoad

omit hAbsent in
theorem passphrase_unused_p256 :
    (∃ j', parse (plainFile "work") (.text "") ⟨[], ⟨[], 0⟩, []⟩ =
      .ok (Envelope.plainKey "work") j') ∧
    (parse (plainFile "work") (.text "secret")).Yields (Envelope.plainKey "work") := by
  have hParse : (parse (plainFile "work") (.text "")).Yields (Envelope.plainKey "work") :=
    parse_plainFile (by decide +kernel) _
  obtain ⟨j', hRun⟩ := hParse ⟨[], ⟨[], 0⟩, []⟩
  exact ⟨⟨j', hRun⟩, (passphrase_unused rfl _).1 _ _ _ hRun _⟩

end KeyFile
end SshKeys

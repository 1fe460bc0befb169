import SshKeys.Proofs.Failure
/-!
# For what DER is refused

Readers of plain keys refuse the form of the data or an algorithm that is not supported; only data
in the encrypted form asks for a password. Whatever is in that form is in no plain form, so a reader
without a password asks for one exactly on such data.
-/
namespace SshKeys.Der

open Fallible (FailsOnly)

/-- Refusals that have nothing to do with a password. -/
def Refusal.IsPlain (refusal : Refusal) : Prop := refusal = .malformed ∨ refusal = .unsupported

namespace Reading

variable {α β : Type} {P : Refusal → Prop}

theorem bind_expect_some (a : α) (f : α → Reading β) : (expect (some a) >>= f) = f a := rfl

theorem bind_expect_none (f : α → Reading β) : (expect none >>= f) = .error .malformed := rfl

theorem expect_failsOnly (h : P .malformed) (o : Option α) : FailsOnly P (expect o) := by
  cases o with
  | none => exact Fallible.failsOnly_error h
  | some a => exact Fallible.failsOnly_ok a

theorem require_failsOnly (h : P .malformed) (condition : Bool) :
    FailsOnly P (require condition) := by
  cases condition with
  | false => exact Fallible.failsOnly_error h
  | true => exact Fallible.failsOnly_ok ()

theorem orTry_failsOnly {first second : Reading α} (hFirst : FailsOnly P first)
    (hSecond : FailsOnly P second) : FailsOnly P (orTry first second) := by
  unfold orTry
  split
  · exact hSecond
  · exact hFirst

theorem mapM_failsOnly {f : α → Reading β} (h : ∀ a, FailsOnly P (f a)) (items : List α) :
    FailsOnly P (items.mapM f) := by
  induction items with
  | nil => exact Fallible.failsOnly_ok []
  | cons item items ih =>
    rw [List.mapM_cons]
    exact (h item).bind fun _ _ => ih.bind fun _ _ => Fallible.failsOnly_ok _

end Reading

open Reading Refusal

theorem Domain.curve_refusal (e : Element) : FailsOnly IsPlain (Domain.curve e) := by
  unfold Domain.curve
  split
  · split
    · exact Fallible.failsOnly_ok _
    · exact Fallible.failsOnly_error (.inr rfl)
  · exact expect_failsOnly (.inl rfl) _

theorem PublicKey.readNatural_refusal (bs : Bytes) :
    FailsOnly IsPlain (PublicKey.readNatural bs) := expect_failsOnly (.inl rfl) _

namespace PrivateKey

theorem readNaturals_refusal (bs : Bytes) : FailsOnly IsPlain (readNaturals bs) := by
  refine (expect_failsOnly (.inl rfl) _).bind fun e _ => ?_
  refine (expect_failsOnly (.inl rfl) _).bind fun items _ => ?_
  exact mapM_failsOnly (fun item => expect_failsOnly (.inl rfl) _) items

theorem readRsa_refusal (bs : Bytes) : FailsOnly IsPlain (readRsa bs) := by
  refine (readNaturals_refusal bs).bind fun ns _ => ?_
  split
  · refine (require_failsOnly (.inl rfl) _).bind fun _ _ => ?_
    exact (require_failsOnly (.inl rfl) _).bind fun _ _ => Fallible.failsOnly_ok _
  · exact Fallible.failsOnly_error (.inl rfl)

theorem readDsa_refusal (bs : Bytes) : FailsOnly IsPlain (readDsa bs) := by
  refine (readNaturals_refusal bs).bind fun ns _ => ?_
  split
  · exact (require_failsOnly (.inl rfl) _).bind fun _ _ => Fallible.failsOnly_ok _
  · exact Fallible.failsOnly_error (.inl rfl)

theorem agreedCurve_refusal (outer inner : Option Element) :
    FailsOnly IsPlain (agreedCurve outer inner) := by
  unfold agreedCurve
  split
  · split
    · exact Domain.curve_refusal _
    · exact Fallible.failsOnly_error (.inl rfl)
  · exact Domain.curve_refusal _
  · exact Domain.curve_refusal _
  · exact Fallible.failsOnly_error (.inl rfl)

theorem readElliptic_refusal (outer : Option Element) (bs : Bytes) :
    FailsOnly IsPlain (readElliptic outer bs) := by
  refine (expect_failsOnly (.inl rfl) _).bind fun e _ => ?_
  refine (expect_failsOnly (.inl rfl) _).bind fun items _ => ?_
  split
  · refine (expect_failsOnly (.inl rfl) _).bind fun secret _ => ?_
    refine (expect_failsOnly (.inl rfl) _).bind fun options _ => ?_
    refine (require_failsOnly (.inl rfl) _).bind fun _ _ => ?_
    refine (agreedCurve_refusal _ _).bind fun curve _ => ?_
    refine (require_failsOnly (.inl rfl) _).bind fun _ _ => ?_
    refine (expect_failsOnly (.inl rfl) _).bind fun point _ => ?_
    split
    · exact Fallible.failsOnly_ok _
    · exact (require_failsOnly (.inl rfl) _).bind fun _ _ => Fallible.failsOnly_ok _
  · exact Fallible.failsOnly_error (.inl rfl)

theorem readOctets_refusal (bs : Bytes) (algorithm : KeyAlgorithm) :
    FailsOnly IsPlain (readOctets bs algorithm) := by
  cases algorithm with
  | rsa => exact readRsa_refusal bs
  | dsa domain =>
    refine (PublicKey.readNatural_refusal bs).bind fun x _ => ?_
    exact (require_failsOnly (.inl rfl) _).bind fun _ _ => Fallible.failsOnly_ok _
  | elliptic parameters => exact readElliptic_refusal _ bs
  | ed25519 =>
    refine (expect_failsOnly (.inl rfl) _).bind fun seed _ => ?_
    exact (require_failsOnly (.inl rfl) _).bind fun _ _ => Fallible.failsOnly_ok _
  | foreign kind =>
    cases kind with
    | diffieHellman =>
      have hNumber : FailsOnly IsPlain (discard (PublicKey.readNatural bs)) := by
        intro refusal h
        cases hRead : PublicKey.readNatural bs with
        | error other =>
          rw [hRead] at h
          cases h
          exact PublicKey.readNatural_refusal bs _ hRead
        | ok n =>
          rw [hRead] at h
          cases h
      exact hNumber.bind fun _ _ => Fallible.failsOnly_ok _
    | _ =>
      refine (expect_failsOnly (.inl rfl) _).bind fun octets _ => ?_
      exact (require_failsOnly (.inl rfl) _).bind fun _ _ => Fallible.failsOnly_ok _
  | unknown => exact Fallible.failsOnly_error (.inr rfl)

theorem readAny_refusal (bs : Bytes) : FailsOnly IsPlain (readAny bs) := by
  refine (expect_failsOnly (.inl rfl) _).bind fun e _ => ?_
  refine (expect_failsOnly (.inl rfl) _).bind fun items _ => ?_
  split
  · refine (expect_failsOnly (.inl rfl) _).bind fun algorithm _ => ?_
    refine (expect_failsOnly (.inl rfl) _).bind fun octets _ => ?_
    exact (require_failsOnly (.inl rfl) _).bind fun _ _ => readOctets_refusal octets algorithm
  · exact Fallible.failsOnly_error (.inl rfl)

theorem readPlain_refusal (bs : Bytes) : FailsOnly IsPlain (readPlain bs) := by
  refine orTry_failsOnly (readAny_refusal bs) ?_
  refine orTry_failsOnly (readRsa_refusal bs) ?_
  exact orTry_failsOnly (readElliptic_refusal none bs) (readDsa_refusal bs)

/-- The form that encrypted keys have: a scheme that can be read, and octets. -/
def IsSealed (bs : Bytes) : Prop :=
  ∃ e element text scheme octets, Element.ofBytes? bs = some e ∧
    e.sequence? = some [element, text] ∧ Scheme.ofElement? element = some scheme ∧
    text.octets? = some octets

theorem tag_of_ofElement? {element : Element} {scheme : Scheme}
    (h : Scheme.ofElement? element = some scheme) : element.tag = 0x30 := by
  rw [Scheme.ofElement?, Element.algorithm?, Element.sequence?, Element.items?] at h
  by_contra hTag
  rw [if_neg hTag] at h
  cases h

variable {bs : Bytes}

theorem readNaturals_of_isSealed (h : IsSealed bs) : readNaturals bs = .error .malformed := by
  obtain ⟨e, element, text, scheme, octets, hBytes, hItems, hScheme, -⟩ := h
  have hNatural : element.natural? = none := by
    rw [Element.natural?, if_neg]
    rintro ⟨hOther, -⟩
    rw [tag_of_ofElement? hScheme] at hOther
    cases hOther
  rw [readNaturals, hBytes, bind_expect_some, hItems, bind_expect_some, List.mapM_cons, hNatural,
    bind_expect_none]

theorem readElliptic_of_isSealed (h : IsSealed bs) :
    readElliptic none bs = .error .malformed := by
  obtain ⟨e, element, text, scheme, octets, hBytes, hItems, hScheme, hText⟩ := h
  have hVersion : (element == Element.natural 1) = false := by
    rw [beq_eq_false_iff_ne]
    rintro rfl
    cases tag_of_ofElement? hScheme
  simp only [readElliptic, hBytes, hItems, hText, bind_expect_some, readOptions?, hVersion]
  rfl

theorem readPlain_of_isSealed (h : IsSealed bs) : readPlain bs = .error .malformed := by
  have hNumbers := readNaturals_of_isSealed h
  have hRsa : readRsa bs = .error .malformed := by
    rw [readRsa, hNumbers]
    rfl
  have hDsa : readDsa bs = .error .malformed := by
    rw [readDsa, hNumbers]
    rfl
  have hAny : readAny bs = .error .malformed := by
    obtain ⟨e, element, text, -, -, hBytes, hItems, -⟩ := h
    rw [readAny, hBytes, bind_expect_some, hItems]
    rfl
  rw [readPlain, hAny, hRsa, readElliptic_of_isSealed h, hDsa]
  rfl

theorem readEncrypted_of_isSealed (h : IsSealed bs) :
    readEncrypted none bs = .error .passwordMissing := by
  obtain ⟨e, element, text, scheme, octets, hBytes, hItems, hScheme, hText⟩ := h
  simp only [readEncrypted, hBytes, hItems, hScheme, hText, bind_expect_some]

theorem readEncrypted_none_refusal (bs : Bytes) :
    FailsOnly (fun refusal => refusal.IsPlain ∨ refusal = .passwordMissing ∧ IsSealed bs)
      (readEncrypted none bs) := by
  refine (expect_failsOnly (.inl (.inl rfl)) _).bind fun e hBytes => ?_
  refine (expect_failsOnly (.inl (.inl rfl)) _).bind fun items hItems => ?_
  split
  · rename_i element text
    refine (expect_failsOnly (.inl (.inl rfl)) _).bind fun scheme hScheme => ?_
    refine (expect_failsOnly (.inl (.inl rfl)) _).bind fun octets hText => ?_
    simp only [expect_eq_ok_iff] at hBytes hItems hScheme hText
    exact Fallible.failsOnly_error
      (.inr ⟨rfl, e, element, text, scheme, octets, hBytes, hItems, hScheme, hText⟩)
  · exact Fallible.failsOnly_error (.inl (.inl rfl))

theorem read_none_refusal (bs : Bytes) :
    FailsOnly (fun refusal => refusal.IsPlain ∨ refusal = .passwordMissing ∧ IsSealed bs)
      (read none bs) := by
  rw [read]
  split
  · exact readEncrypted_none_refusal bs
  · rename_i refusal _ hPlain
    exact Fallible.failsOnly_error (.inl (readPlain_refusal bs _ hPlain))
  · exact Fallible.failsOnly_ok _

theorem read_none_of_isSealed {bs : Bytes} (h : IsSealed bs) :
    read none bs = .error .passwordMissing := by
  rw [read, readPlain_of_isSealed h]
  exact readEncrypted_of_isSealed h

end PrivateKey
end SshKeys.Der

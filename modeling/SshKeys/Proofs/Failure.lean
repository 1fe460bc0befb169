import SshKeys.Proofs.Recognition
/-!
# What the readers fail for

A failure is reported if it belongs to a family below the general one; the other causes are mistakes
of a caller, and no reader should make any of whatever bytes it is given. That all failures of a
computation have a property is closed under composition, so each reader is gone through once, along
its steps.
-/
namespace SshKeys

namespace Error

/-- The cause belongs to a family below the general one. -/
def Reported (e : Error) : Prop := ∃ family, family ≠ .general ∧ e.kind = .reported family

theorem kind_ne_general (e : Error) : e.kind ≠ .reported .general := by
  cases e <;> nofun

theorem reported {e : Error} {family : Family} (h : e.kind = .reported family) : e.Reported := by
  refine ⟨family, ?_, h⟩
  rintro rfl
  exact kind_ne_general e h

/-- The cause is one of a malformed format, or of a family below that. -/
def IsFormat (e : Error) : Prop :=
  ∃ family : Family, e.kind = .reported family ∧ family.isWithin .format = true

theorem IsFormat.reported {e : Error} (h : e.IsFormat) : e.Reported := by
  obtain ⟨family, hKind, -⟩ := h
  exact Error.reported hKind

theorem isFormat {e : Error} {family : Family} (h : e.kind = .reported family)
    (hFormat : family.isWithin .format = true) : e.IsFormat := ⟨family, h, hFormat⟩

theorem not_reported (mistake : Misuse) : ¬(misuse mistake).Reported := by
  rintro ⟨family, -, h⟩
  cases h

end Error

namespace Fallible

variable {ε ε' α β : Type} {P : ε → Prop} {x : Except ε α} {f : α → Except ε β} {e : ε}

/-- Whatever the computation fails for has a given property. -/
def FailsOnly (P : ε → Prop) (x : Except ε α) : Prop := ∀ e, x = .error e → P e

theorem failsOnly_ok (a : α) : FailsOnly P (.ok a) := nofun

theorem failsOnly_error (h : P e) : FailsOnly P (.error e : Except ε α) := by
  rintro _ ⟨⟩
  exact h

theorem FailsOnly.bind (hx : FailsOnly P x) (hf : ∀ a, x = .ok a → FailsOnly P (f a)) :
    FailsOnly P (x >>= f) := by
  cases x with
  | error e => exact failsOnly_error (hx e rfl)
  | ok a => exact hf a rfl

theorem FailsOnly.mono {Q : ε → Prop} (hx : FailsOnly P x) (h : ∀ e, P e → Q e) :
    FailsOnly Q x := fun e hError => h e (hx e hError)

theorem FailsOnly.mapError {Q : ε' → Prop} {g : ε → ε'} (hx : FailsOnly P x)
    (h : ∀ e, P e → Q (g e)) : FailsOnly Q (x.mapError g) := by
  cases x with
  | error e => exact failsOnly_error (h e (hx e rfl))
  | ok a => exact failsOnly_ok a

theorem FailsOnly.throwIf {c : Prop} [Decidable c] (he : P e) (hx : ¬c → FailsOnly P x) :
    FailsOnly P (if c then (do throw e; x) else x) := by
  split
  · exact failsOnly_error he
  · rename_i hCondition
    exact hx hCondition

theorem FailsOnly.throwUnless {c : Prop} [Decidable c] (he : P e) (hx : c → FailsOnly P x) :
    FailsOnly P (if c then x else (do throw e; x)) := by
  split
  · rename_i hCondition
    exact hx hCondition
  · exact failsOnly_error he

theorem FailsOnly.ne_misuse {x : Except Error α} (hx : FailsOnly Error.Reported x)
    {mistake : Misuse} : x ≠ .error (.misuse mistake) := fun h => Error.not_reported mistake (hx _ h)

theorem bind_eq_error_iff :
    (x >>= f) = .error e ↔ x = .error e ∨ ∃ a, x = .ok a ∧ f a = .error e := by
  cases x with
  | error e' =>
    constructor
    · intro h
      cases h
      exact .inl rfl
    · rintro (h | ⟨_, h, -⟩)
      · cases h
        rfl
      · cases h
  | ok a =>
    constructor
    · exact fun h => .inr ⟨a, rfl, h⟩
    · rintro (h | ⟨_, h, hf⟩)
      · cases h
      · cases h
        exact hf

theorem pure_eq_error_iff {a : α} : (pure a : Except ε α) = .error e ↔ False := ⟨nofun, False.elim⟩

theorem throwIf_eq_error_iff {c : Prop} [Decidable c] {e' : ε} :
    (if c then (do throw e; x) else x) = .error e' ↔ (c ∧ e = e') ∨ ¬c ∧ x = .error e' := by
  by_cases hCondition : c
  · simp only [hCondition, if_true, true_and, not_true, false_and, or_false]
    exact ⟨Except.error.inj, fun h => h ▸ rfl⟩
  · simp only [hCondition, if_false, false_and, not_false_eq_true, true_and, false_or]

theorem throwUnless_eq_error_iff {c : Prop} [Decidable c] {e' : ε} :
    (if c then x else (do throw e; x)) = .error e' ↔ (¬c ∧ e = e') ∨ c ∧ x = .error e' := by
  by_cases hCondition : c
  · simp only [hCondition, if_true, not_true, false_and, true_and, false_or]
  · simp only [hCondition, if_false, not_false_eq_true, true_and, false_and, or_false]
    exact ⟨Except.error.inj, fun h => h ▸ rfl⟩

end Fallible

theorem Datum.toTextOr_failsOnly {data : Datum} {bs : Bytes} (cause : Error)
    (hData : data.toBytes = .ok bs) : Fallible.FailsOnly (· = cause) (data.toTextOr cause) := by
  cases data with
  | text s => exact Fallible.failsOnly_ok s
  | bytes bs =>
    cases hText : Utf8.decode? bs with
    | none =>
      rw [toTextOr_undecodable cause hText]
      exact Fallible.failsOnly_error rfl
    | some s =>
      obtain rfl := Utf8.eq_encode_of_decode? hText
      rw [toTextOr_encode]
      exact Fallible.failsOnly_ok s
  | foreign value => cases hData

namespace Stateful

variable {σ α β : Type} {P : Error → Prop} {x : EStateM Error σ α} {f : α → EStateM Error σ β}
  {e : Error}

/-- Whatever the computation fails for, from any state, has a given property. -/
def FailsOnly (P : Error → Prop) (x : EStateM Error σ α) : Prop := ∀ s e s', x s = .error e s' → P e

theorem failsOnly_pure (a : α) : FailsOnly P (pure a : EStateM Error σ α) := nofun

theorem failsOnly_throw (h : P e) : FailsOnly P (throw e : EStateM Error σ α) := by
  rintro s _ s' ⟨⟩
  exact h

theorem failsOnly_get : FailsOnly P (get : EStateM Error σ σ) := nofun

theorem failsOnly_modify (g : σ → σ) : FailsOnly P (modify g : EStateM Error σ PUnit) := nofun

theorem FailsOnly.bind (hx : FailsOnly P x)
    (hf : ∀ a s s', x s = .ok a s' → FailsOnly P (f a)) : FailsOnly P (x >>= f) := by
  intro s e s'' h
  cases hFirst : x s with
  | error e' s' =>
    rw [bind_error hFirst] at h
    cases h
    exact hx s e s'' hFirst
  | ok a s' =>
    rw [bind_ok hFirst] at h
    exact hf a s s' hFirst s' e s'' h

theorem FailsOnly.map {g : α → β} (hx : FailsOnly P x) : FailsOnly P (g <$> x) := by
  intro s e s' h
  cases hFirst : x s with
  | error e' s₁ =>
    change EStateM.map g x s = _ at h
    rw [EStateM.map, hFirst] at h
    cases h
    exact hx s e s' hFirst
  | ok a s₁ =>
    change EStateM.map g x s = _ at h
    rw [EStateM.map, hFirst] at h
    cases h

theorem FailsOnly.mono {Q : Error → Prop} (hx : FailsOnly P x) (h : ∀ e, P e → Q e) :
    FailsOnly Q x := fun s e s' hError => h e (hx s e s' hError)

theorem FailsOnly.throwIf {c : Prop} [Decidable c] (he : P e) (hx : ¬c → FailsOnly P x) :
    FailsOnly P (if c then (do throw e; x) else x) := by
  split
  · exact (failsOnly_throw he).bind nofun
  · rename_i hCondition
    exact hx hCondition

theorem FailsOnly.throwUnless {c : Prop} [Decidable c] (he : P e) (hx : c → FailsOnly P x) :
    FailsOnly P (if c then x else (do throw e; x)) := by
  split
  · rename_i hCondition
    exact hx hCondition
  · exact (failsOnly_throw he).bind nofun

theorem bind_eq_error_iff {s s'' : σ} : (x >>= f) s = .error e s'' ↔
    x s = .error e s'' ∨ ∃ a s', x s = .ok a s' ∧ f a s' = .error e s'' := by
  cases hFirst : x s with
  | error e' s' =>
    rw [bind_error hFirst]
    constructor
    · intro h
      cases h
      exact .inl rfl
    · rintro (h | ⟨_, _, h, -⟩)
      · cases h
        rfl
      · cases h
  | ok a s' =>
    rw [bind_ok hFirst]
    constructor
    · exact fun h => .inr ⟨a, s', rfl, h⟩
    · rintro (h | ⟨_, _, h, hf⟩)
      · cases h
      · cases h
        exact hf

theorem pure_eq_error_iff {a : α} {s s' : σ} :
    (pure a : EStateM Error σ α) s = .error e s' ↔ False := ⟨nofun, False.elim⟩

theorem get_eq_error_iff {s s' : σ} :
    (get : EStateM Error σ σ) s = .error e s' ↔ False := ⟨nofun, False.elim⟩

theorem modify_eq_error_iff {g : σ → σ} {s s' : σ} :
    (modify g : EStateM Error σ PUnit) s = .error e s' ↔ False := ⟨nofun, False.elim⟩

theorem throw_eq_error_iff {e' : Error} {s s' : σ} :
    (throw e : EStateM Error σ α) s = .error e' s' ↔ e = e' ∧ s = s' := by
  constructor
  · intro h
    cases h
    exact ⟨rfl, rfl⟩
  · rintro ⟨rfl, rfl⟩
    rfl

theorem throwIf_eq_error_iff {c : Prop} [Decidable c] {e' : Error} {s s' : σ} :
    (if c then (do throw e; x) else x) s = .error e' s' ↔
      (c ∧ e = e' ∧ s = s') ∨ ¬c ∧ x s = .error e' s' := by
  by_cases hCondition : c
  · simp only [hCondition, if_true, true_and, not_true, false_and, or_false]
    exact throw_eq_error_iff (α := α)
  · simp only [hCondition, if_false, false_and, not_false_eq_true, true_and, false_or]

theorem throwUnless_eq_error_iff {c : Prop} [Decidable c] {e' : Error} {s s' : σ} :
    (if c then x else (do throw e; x)) s = .error e' s' ↔
      (¬c ∧ e = e' ∧ s = s') ∨ c ∧ x s = .error e' s' := by
  by_cases hCondition : c
  · simp only [hCondition, if_true, not_true, false_and, true_and, false_or]
  · simp only [hCondition, if_false, not_false_eq_true, true_and, false_and, or_false]
    exact throw_eq_error_iff (α := α)

theorem FailsOnly.ne_misuse (hx : FailsOnly Error.Reported x) {mistake : Misuse} {s s' : σ} :
    x s ≠ .error (.misuse mistake) s' := fun h => Error.not_reported mistake (hx s _ s' h)

end Stateful

open Error (Reported IsFormat)

namespace Packet

open Stateful (FailsOnly)

variable {α : Type} {P : Error → Prop} {reader : Reader α}

theorem read_format (count : Nat) : FailsOnly IsFormat (read count) := by
  intro p e p' h
  simp only [read] at h
  split at h
  · cases h
    exact Error.isFormat rfl rfl
  · cases h

theorem readUInt32_format : FailsOnly IsFormat readUInt32 :=
  (read_format 4).bind fun _ _ _ _ => Stateful.failsOnly_pure _

theorem readString_format : FailsOnly IsFormat readString := by
  refine readUInt32_format.bind fun length _ _ _ => ?_
  refine Stateful.failsOnly_get.bind fun p _ _ _ => ?_
  exact .throwIf (Error.isFormat rfl rfl) fun _ => read_format length

theorem readText_format : FailsOnly IsFormat readText := by
  refine readString_format.bind fun bs _ _ _ => ?_
  cases Utf8.decode? bs with
  | none => exact Stateful.failsOnly_throw (Error.isFormat rfl rfl)
  | some s => exact Stateful.failsOnly_pure s

theorem read_reports (count : Nat) : FailsOnly Reported (read count) :=
  (read_format count).mono fun _ => IsFormat.reported

theorem readUInt32_reports : FailsOnly Reported readUInt32 :=
  readUInt32_format.mono fun _ => IsFormat.reported

theorem readString_reports : FailsOnly Reported readString :=
  readString_format.mono fun _ => IsFormat.reported

theorem readText_reports : FailsOnly Reported readText :=
  readText_format.mono fun _ => IsFormat.reported

theorem readInteger_reports : FailsOnly Reported readInteger :=
  readString_reports.bind fun _ _ _ _ => Stateful.failsOnly_pure _

theorem lift_failsOnly {x : Except Error α} (h : Fallible.FailsOnly P x) :
    FailsOnly P (KeyBody.lift x) := by
  cases x with
  | error e => exact Stateful.failsOnly_throw (h e rfl)
  | ok a => exact Stateful.failsOnly_pure a

theorem lift_eq_error_iff {x : Except Error α} {e : Error} {p p' : Packet} :
    KeyBody.lift x p = .error e p' ↔ x = .error e ∧ p = p' := by
  cases x with
  | error e' =>
    rw [KeyBody.lift, Except.error.injEq]
    exact (EStateM.Result.error.injEq ..).to_iff
  | ok a =>
    constructor
    · intro h
      cases h
    · rintro ⟨h, -⟩
      cases h

theorem parse_eq_error_iff {content : Bytes} {e : Error} :
    parse reader content = .error e ↔ ∃ p', reader (ofBytes content) = .error e p' := by
  rw [parse]
  constructor
  · intro h
    split at h
    · cases h
    · rename_i e' p' hReader
      cases h
      exact ⟨p', hReader⟩
  · rintro ⟨p', h⟩
    rw [h]

theorem parse_failsOnly (h : FailsOnly P reader) (content : Bytes) :
    Fallible.FailsOnly P (parse reader content) := by
  intro e hError
  obtain ⟨p', hReader⟩ := parse_eq_error_iff.mp hError
  exact h _ e p' hReader

end Packet

namespace KeyBody

open Fallible (FailsOnly)

theorem checkRsaSize_reports (n : Int) : FailsOnly Reported (checkRsaSize n) := by
  rw [checkRsaSize]
  split
  · exact Fallible.failsOnly_error (Error.reported rfl)
  · exact Fallible.failsOnly_ok ()

theorem checkDsa_reports (p q g y : Int) : FailsOnly Reported (checkDsa p q g y) := by
  refine .throwIf (Error.reported rfl) fun _ => ?_
  refine .throwIf (Error.reported rfl) fun _ => ?_
  exact .throwUnless (Error.reported rfl) fun _ => Fallible.failsOnly_ok ()

theorem ofDsaEntry_reports (p q g y x : Int) : FailsOnly Reported (ofDsaEntry p q g y x) := by
  refine (checkDsa_reports p q g y).bind fun _ _ => ?_
  refine .throwUnless (Error.reported rfl) fun _ => ?_
  refine .throwIf (Error.reported rfl) fun _ => ?_
  exact .throwUnless (Error.reported rfl) fun _ => Fallible.failsOnly_ok _

theorem ofEcdsaEntry_reports (curve : NistCurve) (point : Point) (scalar : Int) :
    FailsOnly Reported (ofEcdsaEntry curve point scalar) := by
  refine .throwIf (Error.reported rfl) fun _ => ?_
  cases curve.curve.baseMultiple? scalar.toNat with
  | none => exact Fallible.failsOnly_error (Error.reported rfl)
  | some derived => exact .throwIf (Error.reported rfl) fun _ => Fallible.failsOnly_ok _

theorem ofEd25519Entry_reports (publicKey secret : Bytes) :
    FailsOnly Reported (ofEd25519Entry publicKey secret) := by
  refine .throwIf (Error.reported rfl) fun _ => ?_
  refine .throwIf (Error.reported rfl) fun _ => ?_
  exact .throwIf (Error.reported rfl) fun _ => Fallible.failsOnly_ok _

theorem readPoint_reports (keyType : String) (curve : NistCurve) :
    Stateful.FailsOnly Reported (readPoint keyType curve) := by
  refine Packet.readText_reports.bind fun name _ _ _ => ?_
  refine .throwIf (Error.reported rfl) fun _ => ?_
  refine Packet.readString_reports.bind fun bs _ _ _ => ?_
  refine .throwIf (Error.reported rfl) fun _ => ?_
  refine .throwIf (Error.reported rfl) fun _ => ?_
  cases curve.curve.readUncompressed? bs with
  | none => exact Stateful.failsOnly_throw (Error.reported rfl)
  | some q => exact Stateful.failsOnly_pure q

theorem readEd25519Bytes_reports : Stateful.FailsOnly Reported readEd25519Bytes := by
  refine Packet.readString_reports.bind fun bs _ _ _ => ?_
  exact .throwIf (Error.reported rfl) fun _ => Stateful.failsOnly_pure _

end KeyBody

namespace PrivateSection

theorem checkPadding_reports (start : Nat) (bs : Bytes) :
    Fallible.FailsOnly Reported (checkPadding start bs) := by
  induction bs generalizing start with
  | nil => exact Fallible.failsOnly_ok ()
  | cons b bs ih =>
    rw [checkPadding]
    split
    · exact ih (start + 1)
    · exact Fallible.failsOnly_error (Error.reported rfl)

end PrivateSection

namespace CipherSuite

theorem ofName_reports (name : Option String) : Fallible.FailsOnly Reported (ofName name) := by
  rw [ofName]
  split
  · exact Fallible.failsOnly_ok _
  · exact Fallible.failsOnly_error (Error.reported rfl)

end CipherSuite

namespace Stretching

theorem ofOptions_reports (name : String) (options : Bytes) :
    Fallible.FailsOnly Reported (ofOptions name options) := by
  have hRead : Stateful.FailsOnly Reported (readOptions name) := by
    refine Packet.readString_reports.bind fun salt _ _ _ => ?_
    refine Packet.readUInt32_reports.bind fun rounds _ _ _ => ?_
    refine Stateful.failsOnly_get.bind fun p _ _ _ => ?_
    refine .throwIf (Error.reported rfl) fun _ => ?_
    refine .throwIf (Error.reported rfl) fun _ => ?_
    exact .throwIf (Error.reported rfl) fun _ => Stateful.failsOnly_pure _
  rw [ofOptions]
  split
  · split
    · exact Fallible.failsOnly_ok _
    · exact Fallible.failsOnly_error (Error.reported rfl)
  · split
    · exact Packet.parse_failsOnly hRead options
    · exact Fallible.failsOnly_error (Error.reported rfl)

end Stretching

namespace Action

variable {α : Type} {P : Error → Prop}

theorem ofExcept_failsOnly {r : Except Error α} (h : Fallible.FailsOnly P r) :
    Stateful.FailsOnly P (ofExcept r) := by
  cases r with
  | error e => exact Stateful.failsOnly_throw (h e rfl)
  | ok a => exact Stateful.failsOnly_pure a

theorem ofExcept_eq_error_iff {r : Except Error α} {e : Error} {j j' : Journal} :
    ofExcept r j = .error e j' ↔ r = .error e ∧ j = j' := by
  cases r with
  | error e' =>
    rw [ofExcept, Except.error.injEq]
    exact (EStateM.Result.error.injEq ..).to_iff
  | ok a =>
    constructor
    · intro h
      cases h
    · rintro ⟨h, -⟩
      cases h

theorem log_failsOnly (level : Level) (source : Source) (message : String) :
    Stateful.FailsOnly P (Journal.log level source message) := nofun

end Action

namespace Envelope

theorem readStrings_reports (done : List Bytes) (count : Nat) :
    Stateful.FailsOnly Reported (readStrings done count) := by
  induction count generalizing done with
  | zero => exact Stateful.failsOnly_pure _
  | succ count ih => exact Packet.readString_reports.bind fun bs _ _ _ => ih (bs :: done)

theorem readFields_reports : Stateful.FailsOnly Reported readFields := by
  refine Packet.readText_reports.bind fun cipherName _ _ _ => ?_
  refine Packet.readText_reports.bind fun stretchingName _ _ _ => ?_
  refine Packet.readString_reports.bind fun options _ _ _ => ?_
  refine (Packet.lift_failsOnly (CipherSuite.ofName_reports _)).bind fun suite _ _ _ => ?_
  refine (Packet.lift_failsOnly (Stretching.ofOptions_reports _ _)).bind fun stretching _ _ _ => ?_
  refine .throwIf (Error.reported rfl) fun _ => ?_
  refine Packet.readUInt32_reports.bind fun count _ _ _ => ?_
  refine .throwIf (Error.reported rfl) fun _ => ?_
  refine Stateful.failsOnly_get.bind fun p _ _ _ => ?_
  refine .throwIf (Error.reported rfl) fun _ => ?_
  refine (readStrings_reports [] count).bind fun publicBlobs _ _ _ => ?_
  refine Packet.readString_reports.bind fun payload _ _ _ => ?_
  refine Stateful.failsOnly_get.bind fun p _ _ _ => ?_
  refine .throwIf (Error.reported rfl) fun _ => ?_
  exact .throwIf (Error.reported rfl) fun _ => Stateful.failsOnly_pure _

theorem ofBytes_reports (data : Bytes) : Fallible.FailsOnly Reported (ofBytes data) := by
  rw [ofBytes]
  split
  · refine Packet.parse_failsOnly ?_ data
    exact (Packet.read_reports _).map.bind fun _ _ _ _ => readFields_reports
  · exact Fallible.failsOnly_error (Error.reported rfl)

theorem load_reports (data : Bytes) : Stateful.FailsOnly Reported (load data) := by
  refine (Action.ofExcept_failsOnly (ofBytes_reports data)).bind fun e _ _ _ => ?_
  exact (Action.log_failsOnly _ _ _).bind fun _ _ _ _ => Stateful.failsOnly_pure e

end Envelope

namespace Armour

theorem decodeText_reports (s : String) : Fallible.FailsOnly Reported (decodeText s) := by
  rw [decodeText]
  split
  · exact Fallible.failsOnly_error (Error.reported rfl)
  · split
    · exact Fallible.failsOnly_ok _
    · exact Fallible.failsOnly_error (Error.reported rfl)

end Armour

end SshKeys

import SshKeys.Proofs.PrivateLoading
/-!
# The records that loading leaves behind

The data alone determines one list of records: under every passphrase they are written in its order,
as far as loading comes, and all of them where it succeeds. So the records of two runs tell nothing
about their passphrases but how far each run came.
-/
namespace SshKeys

namespace Action

variable {α β : Type} {x y : Action α} {full first rest : List Record}

/-- Whatever the journal, the action writes records of the list, from its beginning on, and all of them
where it succeeds. -/
structure Writes (x : Action α) (full : List Record) : Prop where
  done : ∀ j a j', x j = .ok a j' → j'.records = j.records ++ full
  stopped : ∀ j e j', x j = .error e j' → ∃ rs, rs <+: full ∧ j'.records = j.records ++ rs

theorem writes_pure (a : α) : Writes (pure a) [] where
  done := by
    rintro j b j' ⟨⟩
    exact (List.append_nil _).symm
  stopped := nofun

theorem writes_throw (e : Error) (full : List Record) : Writes (throw e : Action α) full where
  done := nofun
  stopped := by
    rintro j e j' ⟨⟩
    exact ⟨[], List.nil_prefix, (List.append_nil _).symm⟩

theorem writes_ofExcept (r : Except Error α) : Writes (ofExcept r) [] := by
  cases r with
  | ok a => exact writes_pure a
  | error e => exact writes_throw e []

theorem writes_log (level : Level) (source : Source) (message : String) :
    Writes (Journal.log level source message) [⟨level, source, message⟩] where
  done := by
    rintro j _ j' ⟨⟩
    exact List.reverse_cons
  stopped := nofun

theorem Writes.bind {f : α → Action β} (hx : x.Writes first)
    (hf : ∀ a j j', x j = .ok a j' → (f a).Writes rest) : (x >>= f).Writes (first ++ rest) where
  done := by
    intro j b j' h
    obtain ⟨a, i, hFirst, hRest⟩ := Stateful.bind_eq_ok_iff.mp h
    rw [(hf a j i hFirst).done i b j' hRest, hx.done j a i hFirst, List.append_assoc]
  stopped := by
    intro j e j' h
    rcases Stateful.bind_eq_error_iff.mp h with hFirst | ⟨a, i, hFirst, hRest⟩
    · obtain ⟨rs, hPrefix, hRecords⟩ := hx.stopped j e j' hFirst
      exact ⟨rs, hPrefix.trans (List.prefix_append first rest), hRecords⟩
    · obtain ⟨rs, hPrefix, hRecords⟩ := (hf a j i hFirst).stopped i e j' hRest
      refine ⟨first ++ rs, (List.prefix_append_right_inj first).mpr hPrefix, ?_⟩
      rw [hRecords, hx.done j a i hFirst, List.append_assoc]

theorem Writes.andThen {f : α → Action β} (hx : x.Writes full) (hf : ∀ a, (f a).Writes []) :
    (x >>= f).Writes full := by
  have h := hx.bind fun a _ _ _ => hf a
  rwa [List.append_nil] at h

theorem Writes.ofExcept_bind {r : Except Error α} {f : α → Action β}
    (hf : ∀ a, r = .ok a → (f a).Writes rest) : (ofExcept r >>= f).Writes rest :=
  (writes_ofExcept r).bind fun a _ _ h => hf a (ofExcept_eq_ok_iff.mp h).1

theorem Writes.map (hx : x.Writes full) (g : α → β) : (g <$> x).Writes full := by
  rw [map_eq_pure_bind]
  exact hx.andThen fun a => writes_pure (g a)

theorem Writes.throwIf {c : Prop} [Decidable c] {e : Error} (hx : ¬c → x.Writes full) :
    Writes (if c then (do throw e; x) else x) full := by
  by_cases hCondition : c
  · rw [if_pos hCondition]
    exact writes_throw e full
  · rw [if_neg hCondition]
    exact hx hCondition

/-- Under every passphrase the records are of the same list. -/
def SameRecords (f : Datum → Action α) : Prop := ∃ full, ∀ passphrase, (f passphrase).Writes full

theorem Writes.sameRecords (h : x.Writes full) : SameRecords fun _ => x := ⟨full, fun _ => h⟩

/-- What does not depend on the passphrase hands on the same value, so what follows may well go by
that value. -/
theorem SameRecords.bind {f : α → Datum → Action β} (hx : SameRecords fun _ => x)
    (hSettled : x.Settled) (hf : ∀ a, SameRecords (f a)) :
    SameRecords fun passphrase => x >>= fun a => f a passphrase := by
  obtain ⟨first, hFirst⟩ := hx
  rcases hSettled with ⟨a, hYields⟩ | ⟨e, hFails⟩
  · obtain ⟨rest, hRest⟩ := hf a
    refine ⟨first ++ rest, fun passphrase => (hFirst passphrase).bind fun b j j' h => ?_⟩
    obtain ⟨i, hEnd⟩ := hYields j
    cases hEnd.symm.trans h
    exact hRest passphrase
  · refine ⟨first ++ [], fun passphrase => (hFirst passphrase).bind fun b j j' h => ?_⟩
    obtain ⟨_, _, hEnd, -⟩ := hFails j
    cases hEnd.symm.trans h

theorem sameRecords_ofExcept (r : Except Error α) : SameRecords fun _ => ofExcept r :=
  (writes_ofExcept r).sameRecords

theorem SameRecords.ofExcept_bind {f : α → Datum → Action β} (r : Except Error α)
    (hf : ∀ a, SameRecords (f a)) : SameRecords fun passphrase => ofExcept r >>= fun a => f a passphrase :=
  (sameRecords_ofExcept r).bind (settled_ofExcept r) hf

end Action

open SshKeys.Action (Writes SameRecords)

namespace CipherSuite

/-- What decryption reports, before it stretches the passphrase. -/
def report (suite : CipherSuite) (s : Stretching) (size : Nat) : List Record :=
  if suite.isNone then [] else [⟨.debug, .cipher, logText "Decrypting" suite s size⟩]

theorem writes_decrypt (suite : CipherSuite) (s : Stretching) (passphrase : Datum) (text : Bytes) :
    Writes (suite.decrypt s passphrase text) (suite.report s text.length) := by
  refine Writes.ofExcept_bind fun _ _ => ?_
  rw [report]
  cases suite.isNone with
  | true => exact Action.writes_pure text
  | false =>
    refine Writes.throwIf fun _ => ?_
    refine (Action.writes_log _ _ _).andThen fun _ => ?_
    exact (Action.writes_ofExcept _).andThen fun _ => Action.writes_pure _

end CipherSuite

namespace Envelope

theorem writes_load (raw : Bytes) : SameRecords fun _ => load raw := by
  rw [load]
  refine SameRecords.ofExcept_bind _ fun e => ?_
  exact ⟨_, fun _ => (Action.writes_log _ _ _).andThen fun _ => Action.writes_pure e⟩

theorem sameRecords_decrypt (e : Envelope) : SameRecords e.decrypt := by
  refine SameRecords.ofExcept_bind _ fun suite => ?_
  refine ⟨suite.report e.stretching e.payload.length, fun passphrase => ?_⟩
  exact (suite.writes_decrypt _ passphrase _).andThen fun _ => Action.writes_ofExcept _

theorem sameRecords_unlock (raw : Bytes) : SameRecords (unlock raw) := by
  refine (writes_load raw).bind (settled_load raw) fun e => ?_
  obtain ⟨full, hFull⟩ := e.sameRecords_decrypt
  exact ⟨full, fun passphrase => (hFull passphrase).andThen fun _ => Action.writes_pure _⟩

theorem sameRecords_decodeKeys (data : Datum) : SameRecords (decodeKeys data) := by
  rw [funext (decodeKeys_eq data)]
  exact SameRecords.ofExcept_bind _ sameRecords_unlock

theorem length_decodeKeys (data : Datum) : ∃ n, ∀ passphrase j keys j',
    decodeKeys data passphrase j = .ok keys j' → keys.length = n := by
  have opened {passphrase : Datum} {j j' : Journal} {keys : List Key}
      (h : decodeKeys data passphrase j = .ok keys j') : ∃ raw e, content data = .ok raw ∧
        ofBytes raw = .ok e ∧ keys.length = e.publicBlobs.length := by
    rw [decodeKeys_eq] at h
    obtain ⟨raw, i, hRaw, hUnlock⟩ := Stateful.bind_eq_ok_iff.mp h
    obtain ⟨e, _, hLoad, -⟩ := Stateful.bind_eq_ok_iff.mp hUnlock
    have hRead := ofBytes_of_load hLoad
    refine ⟨raw, e, (Action.ofExcept_eq_ok_iff.mp hRaw).1, hRead, ?_⟩
    rw [(blobs_of_unlock hRead hUnlock).1, List.length_map]
  by_cases hEnvelope : ∃ raw e, content data = .ok raw ∧ ofBytes raw = .ok e
  · obtain ⟨raw, e, hRaw, hRead⟩ := hEnvelope
    refine ⟨e.publicBlobs.length, fun passphrase j keys j' h => ?_⟩
    obtain ⟨raw', e', hRaw', hRead', hLength⟩ := opened h
    cases hRaw.symm.trans hRaw'
    cases hRead.symm.trans hRead'
    exact hLength
  · refine ⟨0, fun passphrase j keys j' h => ?_⟩
    obtain ⟨raw, e, hRaw, hRead, -⟩ := opened h
    exact (hEnvelope ⟨raw, e, hRaw, hRead⟩).elim

end Envelope

namespace PemBlock

theorem sameRecords_decrypt (b : PemBlock) (procType : String) :
    SameRecords (b.decrypt procType) := by
  cases hHeader : b.cipherHeader with
  | error e =>
    refine ⟨[], fun passphrase => Writes.ofExcept_bind fun found hFound => ?_⟩
    obtain ⟨-, ⟨value, hAccepted, -⟩, -⟩ := accepted_of_checkHeaders hFound
    cases hHeader.symm.trans hAccepted
  | ok header =>
    obtain ⟨cipher, value⟩ := header
    refine ⟨[⟨.debug, .pem, s!"Decrypting traditional PEM key with {cipher.headerName}"⟩],
      fun passphrase => Writes.ofExcept_bind fun found hFound => ?_⟩
    obtain ⟨cipher', iv⟩ := found
    obtain ⟨-, ⟨value', hAccepted, -⟩, -⟩ := accepted_of_checkHeaders hFound
    cases hHeader.symm.trans hAccepted
    refine (Action.writes_log _ _ _).andThen fun _ => ?_
    refine (Action.writes_ofExcept _).andThen fun c => ?_
    cases c.openText? iv b.body with
    | some plain => exact Action.writes_pure plain
    | none => exact Action.writes_throw _ _

theorem sameRecords_readPrivate (b : PemBlock) (kind : PemKind) :
    SameRecords (b.readPrivate kind) := by
  by_cases hKind : kind = .encryptedPrivate
  · refine ⟨[], fun passphrase => ?_⟩
    simp only [readPrivate, if_pos hKind]
    refine Writes.throwIf fun _ => ?_
    cases passphrase.toBytes with
    | error e => exact Action.writes_throw _ _
    | ok password => exact Action.writes_ofExcept _
  · cases hHeader : b.header "proc-type" with
    | none =>
      refine ⟨[], fun passphrase => ?_⟩
      simp only [readPrivate, if_neg hKind, hHeader]
      exact Action.writes_ofExcept _
    | some procType =>
      obtain ⟨full, hFull⟩ := b.sameRecords_decrypt procType
      refine ⟨full, fun passphrase => ?_⟩
      simp only [readPrivate, if_neg hKind, hHeader]
      exact (hFull passphrase).andThen fun _ => Action.writes_ofExcept _

theorem sameRecords_loadPrivate (data : Datum) : SameRecords (loadPrivate data) := by
  refine SameRecords.ofExcept_bind _ fun b => ?_
  refine SameRecords.ofExcept_bind _ fun kind => ?_
  refine (Action.writes_log _ _ _).sameRecords.bind (Action.settled_log _ _ _) fun _ => ?_
  obtain ⟨full, hFull⟩ := b.sameRecords_readPrivate kind
  exact ⟨full, fun passphrase => (hFull passphrase).andThen fun _ => Action.writes_ofExcept _⟩

end PemBlock

namespace Container

theorem sameRecords_classOfEnvelope (raw : Bytes) : SameRecords fun _ => classOfEnvelope raw := by
  refine (Envelope.writes_load raw).bind (Envelope.settled_load raw) fun e => ?_
  exact SameRecords.ofExcept_bind _ fun _ => (Action.writes_pure _).sameRecords

theorem sameRecords_identify (data : Datum) : SameRecords fun _ => identify data := by
  have named (raw : Bytes) : SameRecords fun _ => do
      return (openssh, ← classOfEnvelope raw) := by
    refine (sameRecords_classOfEnvelope raw).bind (settled_classOfEnvelope raw) fun _ => ?_
    exact (Action.writes_pure _).sameRecords
  have hText (s : String) : SameRecords fun _ => ofText s := by
    simp only [ofText]
    split
    · exact Action.sameRecords_ofExcept _
    · split
      · exact SameRecords.ofExcept_bind _ named
      · split
        · exact (Action.writes_pure _).sameRecords
        · exact (Action.writes_throw _ []).sameRecords
  refine SameRecords.ofExcept_bind _ fun raw => ?_
  by_cases hMagic : Envelope.magic.isPrefixOf raw
  · simp only [if_pos hMagic]
    exact named raw
  · simp only [if_neg hMagic]
    cases Utf8.decode? raw with
    | none => exact (Action.writes_throw _ []).sameRecords
    | some s => exact hText s

end Container

namespace KeyFile

theorem sameRecords_keysIn (container : Container) (data : Datum) :
    SameRecords (keysIn container data) := by
  by_cases hContainer : container = .openssh
  · obtain ⟨full, hFull⟩ := Envelope.sameRecords_decodeKeys data
    refine ⟨full, fun passphrase => ?_⟩
    rw [keysIn, if_pos hContainer]
    exact hFull passphrase
  · obtain ⟨full, hFull⟩ := PemBlock.sameRecords_loadPrivate data
    refine ⟨full, fun passphrase => ?_⟩
    rw [keysIn, if_neg hContainer]
    exact (hFull passphrase).map _

theorem length_keysIn (container : Container) (data : Datum) : ∃ n, ∀ passphrase j keys j',
    keysIn container data passphrase j = .ok keys j' → keys.length = n := by
  by_cases hContainer : container = .openssh
  · simp only [keysIn, if_pos hContainer]
    exact Envelope.length_decodeKeys data
  · refine ⟨1, fun passphrase j keys j' h => ?_⟩
    rw [keysIn, if_neg hContainer] at h
    obtain ⟨key, -, rfl⟩ := Stateful.map_eq_ok_iff.mp h
    rfl

theorem sameRecords_loadFrom (container : Container) (data : Datum) :
    SameRecords (loadFrom container data) := by
  cases hPublic : container.isPublic with
  | true =>
    refine ⟨[], fun passphrase => ?_⟩
    rw [loadFrom, if_pos hPublic]
    exact Action.writes_throw _ _
  | false =>
    obtain ⟨full, hFull⟩ := sameRecords_keysIn container data
    obtain ⟨n, hLength⟩ := length_keysIn container data
    refine ⟨full ++ [⟨.debug, .file, s!"Loaded {n} private key(s) from {container.name} data"⟩],
      fun passphrase => ?_⟩
    rw [loadFrom_eq hPublic]
    refine (hFull passphrase).bind fun keys j j' hKeys => ?_
    rw [hLength passphrase j keys j' hKeys]
    exact (Action.writes_log _ _ _).andThen fun _ => Action.writes_pure keys

theorem sameRecords_loadPrivateKeys (data : Datum) : SameRecords (loadPrivateKeys data) :=
  (Container.sameRecords_identify data).bind (Container.settled_identify data) fun found =>
    sameRecords_loadFrom found.1 data

theorem length_loadPrivateKeys (data : Datum) : ∃ n, ∀ passphrase j keys j',
    loadPrivateKeys data passphrase j = .ok keys j' → keys.length = n := by
  rcases Container.settled_identify data with ⟨⟨container, keyClass⟩, hFound⟩ | ⟨e, hFails⟩
  · obtain ⟨n, hLength⟩ := length_keysIn container data
    refine ⟨n, fun passphrase j keys j' h => ?_⟩
    obtain ⟨found, i, hIdentify, hLoad⟩ := Stateful.bind_eq_ok_iff.mp h
    obtain ⟨i', hYields⟩ := hFound j
    cases hYields.symm.trans hIdentify
    obtain ⟨-, i'', hKeys⟩ := keysIn_of_loadFrom hLoad
    exact hLength passphrase _ keys i'' hKeys
  · refine ⟨0, fun passphrase j keys j' h => ?_⟩
    obtain ⟨found, i, hIdentify, -⟩ := Stateful.bind_eq_ok_iff.mp h
    obtain ⟨_, _, hError, -⟩ := hFails j
    cases hError.symm.trans hIdentify

/-- What is reported of keys that are there but are not returned. -/
def reportOthers (count : Nat) : List Record :=
  if 2 ≤ count then [⟨.warning, .file, s!"Key file holds {count} keys; returning only the first"⟩]
  else []

theorem sameRecords_parsePrivateKey (data : Datum) : SameRecords (parsePrivateKey data) := by
  obtain ⟨full, hFull⟩ := sameRecords_loadPrivateKeys data
  obtain ⟨n, hLength⟩ := length_loadPrivateKeys data
  refine ⟨full ++ reportOthers n, fun passphrase => ?_⟩
  refine (hFull passphrase).bind fun keys j j' hKeys => ?_
  rw [← hLength passphrase j keys j' hKeys]
  match keys with
  | [] => exact Action.writes_throw _ _
  | [key] => exact Action.writes_pure key
  | key :: other :: others =>
    exact (Action.writes_log _ _ _).andThen fun _ => Action.writes_pure key

end KeyFile

namespace Action

variable {α : Type} {x y : Action α}

/-- The journal that the action leaves behind, whether or not it succeeds. -/
def journalAfter (x : Action α) (j : Journal) : Journal :=
  match x j with
  | .ok _ j' => j'
  | .error _ j' => j'

/-- Of the records that two actions write, each from a journal of its own, those of the one begin with
those of the other, and they are the same where both succeed. -/
def RecordsAgree (x y : Action α) : Prop := ∀ i j, ∃ rs rs',
  (x.journalAfter i).records = i.records ++ rs ∧ (y.journalAfter j).records = j.records ++ rs' ∧
    (rs <+: rs' ∨ rs' <+: rs) ∧
    ∀ a i' b j', x i = .ok a i' → y j = .ok b j' → rs = rs'

theorem Writes.records_after {full : List Record} (h : x.Writes full) (j : Journal) : ∃ rs,
    (x.journalAfter j).records = j.records ++ rs ∧ rs <+: full ∧
      ∀ a j', x j = .ok a j' → rs = full := by
  rw [journalAfter]
  cases hRun : x j with
  | ok a j' => exact ⟨full, h.done j a j' hRun, List.prefix_rfl, fun _ _ _ => rfl⟩
  | error e j' =>
    obtain ⟨rs, hPrefix, hRecords⟩ := h.stopped j e j' hRun
    exact ⟨rs, hRecords, hPrefix, nofun⟩

theorem SameRecords.agree {f : Datum → Action α} (h : SameRecords f) (p q : Datum) :
    RecordsAgree (f p) (f q) := by
  obtain ⟨full, hFull⟩ := h
  intro i j
  obtain ⟨rs, hRecords, hPrefix, hAll⟩ := (hFull p).records_after i
  obtain ⟨rs', hRecords', hPrefix', hAll'⟩ := (hFull q).records_after j
  refine ⟨rs, rs', hRecords, hRecords', List.prefix_or_prefix_of_prefix hPrefix hPrefix', ?_⟩
  intro a i' b j' hRun hRun'
  rw [hAll a i' hRun, hAll' b j' hRun']

end Action

/-- The records of reading private keys do not depend on the passphrase. -/
theorem KeyFile.recordsAgree (data p q : Datum) :
    (parsePrivateKey data p).RecordsAgree (parsePrivateKey data q) ∧
      (loadPrivateKeys data p).RecordsAgree (loadPrivateKeys data q) :=
  ⟨(sameRecords_parsePrivateKey data).agree p q, (sameRecords_loadPrivateKeys data).agree p q⟩

end SshKeys

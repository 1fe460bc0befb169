import SshKeys.Secret
import SshKeys.Proofs.BigEndian
import SshKeys.Proofs.Outcome
/-!
# Erasure of secrets

A step writes zeros over the whole storage, sets one byte of it, or changes nothing at all; so along
every run the storage keeps its length, stays blank once it has been erased until a byte is set, and
no other buffer is touched.
-/
namespace SshKeys.Secret

variable {s t u : Secret} {step : Step} {steps : List Step} {answer : Answer} {i v : Int}

section Steps

/-- The steps that erase the storage: a wipe, and the end of a context however it is left. -/
def Step.erases : Step → Bool
  | .wipe | .leave _ | .scope | .failingScope => true
  | _ => false

def Step.looks : Step → Bool
  | .enter | .get _ | .slice _ _ _ | .size | .shown => true
  | _ => false

/-- A number names a place in a storage from its front or, below zero, from its end. -/
def Names (size : Nat) (i : Int) (place : Nat) : Prop :=
  place < size ∧ (i = place ∨ i = (place : Int) - size)

theorem position?_eq_some_iff {size place : Nat} :
    position? size i = some place ↔ Names size i place := by
  rw [position?, Names, Option.ite_none_right_eq_some, Option.some.injEq]
  split <;> omega

theorem assign_eq_ok_iff :
    s.assign i v = .ok t ↔ isIndex i = true ∧ (0 ≤ v ∧ v < 256) ∧ ∃ place,
      Names s.storage.length i place ∧
        t = s.overwrite (s.storage.set place (UInt8.ofNat v.toNat)) := by
  rw [assign, Fallible.throwUnless_eq_ok_iff, Fallible.throwUnless_eq_ok_iff]
  apply and_congr_right
  intro _
  apply and_congr_right
  intro _
  cases hPlace : position? s.storage.length i with
  | none =>
    constructor
    · nofun
    · rintro ⟨place, hNames, -⟩
      rw [position?_eq_some_iff.mpr hNames] at hPlace
      cases hPlace
  | some place =>
    have hNames := position?_eq_some_iff.mp hPlace
    constructor
    · intro h
      exact ⟨place, hNames, (Except.ok.inj h).symm⟩
    · rintro ⟨other, hOther, rfl⟩
      rw [position?_eq_some_iff.mpr hOther] at hPlace
      cases hPlace
      rfl

/-- What a step does to the secret. -/
inductive Effect (s : Secret) : Step → Except Error Answer → Secret → Prop
  | erased {step : Step} {answer : Answer} (hErases : step.erases = true) :
      Effect s step (.ok answer) s.wipe
  | assigned {i v : Int} {t : Secret} (h : s.assign i v = .ok t) : Effect s (.set i v) (.ok .done) t
  | looked {step : Step} {answer : Answer} (hLooks : step.looks = true) :
      Effect s step (.ok answer) s
  | refused {step : Step} {e : Error} : Effect s step (.error e) s

theorem effect (step : Step) (s : Secret) :
    Effect s step (perform step s).1 (perform step s).2 := by
  cases step with
  | wipe | leave _ | scope | failingScope => exact .erased rfl
  | enter | size | shown => exact .looked rfl
  | get i =>
    rw [perform]
    cases s.byteAt i with
    | error e => exact .refused
    | ok b => exact .looked rfl
  | slice first last stride =>
    rw [perform]
    cases slice s.storage first last stride with
    | error e => exact .refused
    | ok bs => exact .looked rfl
  | set i v =>
    rw [perform]
    cases h : s.assign i v with
    | error e => exact .refused
    | ok t => exact .assigned h

theorem storage_wipe (s : Secret) : s.wipe.storage = Bytes.zeros s.storage.length :=
  s.storage_overwrite _

theorem storage_release (s : Secret) : s.release.storage = Bytes.zeros s.storage.length := by
  rw [release]
  split
  · rename_i hNone
    rw [List.isEmpty_iff.mp hNone]
    rfl
  · exact s.storage_wipe

theorem isWiped_iff : s.isWiped = true ↔ ∀ b ∈ s.storage, b = 0 := by
  simp [isWiped]

theorem perform_erases (h : step.erases = true) (s : Secret) : (perform step s).2 = s.wipe := by
  cases step with
  | wipe | leave _ | scope | failingScope => rfl
  | enter | set _ _ | get _ | slice _ _ _ | size | shown => cases h

theorem perform_looks (h : step.looks = true) (s : Secret) : (perform step s).2 = s := by
  cases step with
  | enter | get _ | slice _ _ _ | size | shown => rfl
  | wipe | leave _ | scope | failingScope | set _ _ => cases h

theorem perform_set_eq_ok_iff :
    perform (.set i v) s = (.ok answer, t) ↔ answer = .done ∧ s.assign i v = .ok t := by
  rw [perform]
  cases s.assign i v with
  | error e => simp
  | ok u => simp [eq_comm]

theorem eq_of_perform_error {e : Error} (h : perform step s = (.error e, t)) : t = s := by
  have hEffect := effect step s
  rw [h] at hEffect
  cases hEffect with
  | refused => rfl

/-- The second secret is the first one with other bytes in its storage, but as many. -/
structure Alike (s t : Secret) : Prop where
  place : t.place = s.place
  given : t.given = s.given
  length : t.storage.length = s.storage.length
  elsewhere : ∀ address, address ≠ s.place → t.memory address = s.memory address

theorem Alike.refl (s : Secret) : Alike s s := ⟨rfl, rfl, rfl, fun _ _ => rfl⟩

theorem Alike.trans (h : Alike s t) (h' : Alike t u) : Alike s u where
  place := h'.place.trans h.place
  given := h'.given.trans h.given
  length := h'.length.trans h.length
  elsewhere := by
    intro address hOther
    rw [h'.elsewhere address (h.place ▸ hOther), h.elsewhere address hOther]

theorem Alike.source?_apart (h : Alike s t) {address : Nat} (hGiven : s.given = some address)
    (hApart : address ≠ s.place) : t.source? = s.source? := by
  rw [source?, source?, h.given, hGiven, Option.map_some, Option.map_some,
    h.elsewhere address hApart]

theorem Alike.source?_shared (h : Alike s t) (hGiven : s.given = some s.place) :
    t.source? = some t.storage := by
  rw [source?, h.given, hGiven, ← h.place]
  rfl

theorem alike_overwrite {contents : Bytes} (h : contents.length = s.storage.length) :
    Alike s (s.overwrite contents) where
  place := rfl
  given := rfl
  length := by rw [storage_overwrite, h]
  elsewhere := by
    intro address hOther
    exact s.memory.write_other contents hOther

theorem alike_wipe (s : Secret) : Alike s s.wipe := alike_overwrite (Bytes.length_zeros _)

theorem alike_release (s : Secret) : Alike s s.release := by
  rw [release]
  split
  · exact .refl s
  · exact s.alike_wipe

/-- One byte of the storage is set, and nothing else changes in any buffer. -/
structure SetAt (s : Secret) (place : Nat) (b : UInt8) (t : Secret) : Prop where
  here : t.storage[place]? = some b
  beside : ∀ other, other ≠ place → t.storage[other]? = s.storage[other]?
  elsewhere : ∀ address, address ≠ s.place → t.memory address = s.memory address

theorem setAt_overwrite {place : Nat} (hPlace : place < s.storage.length) (b : UInt8) :
    SetAt s place b (s.overwrite (s.storage.set place b)) where
  here := by rw [storage_overwrite, List.getElem?_set_self hPlace]
  beside := by
    intro other hOther
    rw [storage_overwrite, List.getElem?_set_ne hOther.symm]
  elsewhere := (alike_overwrite List.length_set).elsewhere

theorem Effect.alike {outcome : Except Error Answer} (h : Effect s step outcome t) : Alike s t := by
  cases h with
  | erased => exact s.alike_wipe
  | assigned h =>
    obtain ⟨-, -, place, -, rfl⟩ := assign_eq_ok_iff.mp h
    exact alike_overwrite List.length_set
  | looked | refused => exact .refl s

end Steps

section Runs

/-- The secret behind a run of steps. -/
def after (s : Secret) (steps : List Step) : Secret :=
  ((run steps s).getLast?.map Prod.snd).getD s

theorem run_cons (step : Step) (s : Secret) :
    ∃ outcome t, Effect s step outcome t ∧
      ∀ steps, run (step :: steps) s = (outcome, t) :: run steps t :=
  ⟨_, _, effect step s, fun _ => rfl⟩

theorem after_cons {outcome : Except Error Answer}
    (h : run (step :: steps) s = (outcome, t) :: run steps t) :
    s.after (step :: steps) = t.after steps := by
  rw [after, after, h, List.getLast?_cons, Option.map_some, Option.getD_some]
  exact (Option.getD_map Prod.snd (outcome, t) _).symm

theorem after_append (s : Secret) (done rest : List Step) :
    s.after (done ++ rest) = (s.after done).after rest := by
  induction done generalizing s with
  | nil => rfl
  | cons step done ih =>
    obtain ⟨outcome, t, -, hRun⟩ := run_cons step s
    rw [List.cons_append, after_cons (hRun _), after_cons (hRun _), ih]

theorem alike_after (s : Secret) (steps : List Step) : Alike s (s.after steps) := by
  induction steps generalizing s with
  | nil => exact .refl s
  | cons step steps ih =>
    obtain ⟨outcome, t, hEffect, hRun⟩ := run_cons step s
    rw [after_cons (hRun _)]
    exact hEffect.alike.trans (ih t)

/-- No step of the run is an assignment that succeeds. -/
def Quiet (steps : List Step) (s : Secret) : Prop :=
  ∀ i v answer t, (.set i v, .ok answer, t) ∉ steps.zip (run steps s)

theorem Quiet.storage_after {size : Nat} (h : Quiet steps s)
    (hBlank : s.storage = Bytes.zeros size) : (s.after steps).storage = Bytes.zeros size := by
  induction steps generalizing s with
  | nil => exact hBlank
  | cons step steps ih =>
    obtain ⟨outcome, t, hEffect, hRun⟩ := run_cons step s
    rw [Quiet, hRun, List.zip_cons_cons] at h
    rw [after_cons (hRun _)]
    apply ih
    · intro i v answer u hMem
      exact h i v answer u (List.mem_cons_of_mem _ hMem)
    · cases hEffect with
      | erased => rw [storage_wipe, hBlank, Bytes.length_zeros]
      | assigned => exact absurd List.mem_cons_self (h _ _ _ _)
      | looked | refused => exact hBlank

/-- What can be relied on in a secret when some steps have been performed on it: behind a step that
erases every byte is zero until an assignment succeeds; an assignment succeeds exactly for a byte
and a number that names a place, and then changes the byte there and nothing else in any buffer; and
once the secret is gone its storage is zeros, and no other buffer has been touched. -/
structure Guarded (s : Secret) (steps : List Step) : Prop where
  length : (s.after steps).storage.length = s.storage.length
  blank : ∀ before step quiet, steps = before ++ step :: quiet → step.erases = true →
    Quiet quiet (s.after (before ++ [step])) → ∀ b ∈ (s.after steps).storage, b = 0
  wiped : (s.after steps).isWiped = true ↔ ∀ b ∈ (s.after steps).storage, b = 0
  assigns : ∀ i v, (∃ answer t, perform (.set i v) (s.after steps) = (.ok answer, t)) ↔
    isIndex i = true ∧ (0 ≤ v ∧ v < 256) ∧ ∃ place, Names s.storage.length i place
  assigned : ∀ i v answer t, perform (.set i v) (s.after steps) = (.ok answer, t) →
    ∃ place b, Names s.storage.length i place ∧ b.toNat = v ∧ SetAt (s.after steps) place b t
  refused : ∀ step e t, perform step (s.after steps) = (.error e, t) → t = s.after steps
  looked : ∀ step, step.looks = true → (perform step (s.after steps)).2 = s.after steps
  gone : (s.after steps).release.storage = Bytes.zeros s.storage.length
  elsewhere : ∀ address, address ≠ s.place →
    (s.after steps).release.memory address = s.memory address

theorem guarded (s : Secret) (steps : List Step) : Guarded s steps where
  length := (alike_after s steps).length
  blank := by
    rintro before step quiet rfl hErases hQuiet b hMem
    have hErased : (s.after (before ++ [step])).storage = Bytes.zeros s.storage.length := by
      rw [after_append]
      change (perform step (s.after before)).2.storage = _
      rw [perform_erases hErases, storage_wipe, (alike_after s before).length]
    rw [List.append_cons, after_append, hQuiet.storage_after hErased] at hMem
    exact List.eq_of_mem_replicate hMem
  wiped := isWiped_iff
  assigns := by
    intro i v
    simp only [perform_set_eq_ok_iff, assign_eq_ok_iff, (alike_after s steps).length]
    constructor
    · rintro ⟨_, t, -, hIndex, hByte, place, hNames, -⟩
      exact ⟨hIndex, hByte, place, hNames⟩
    · rintro ⟨hIndex, hByte, place, hNames⟩
      exact ⟨_, _, rfl, hIndex, hByte, place, hNames, rfl⟩
  assigned := by
    intro i v answer t h
    obtain ⟨-, hAssign⟩ := perform_set_eq_ok_iff.mp h
    obtain ⟨-, hByte, place, hNames, rfl⟩ := assign_eq_ok_iff.mp hAssign
    refine ⟨place, UInt8.ofNat v.toNat, (alike_after s steps).length ▸ hNames, ?_,
      setAt_overwrite hNames.1 _⟩
    rw [UInt8.toNat_ofNat']
    omega
  refused := fun step e t => eq_of_perform_error
  looked := fun step hLooks => perform_looks hLooks _
  gone := by rw [storage_release, (alike_after s steps).length]
  elsewhere := ((alike_after s steps).trans (alike_release _)).elsewhere

/-- However a secret has been made, it is guarded along every run of steps. What it was copied from
is never altered; a buffer that was taken over is the storage all along, so it ends as zeros. -/
theorem erased_throughout (steps : List Step) :
    (∀ s : Secret, Guarded s steps) ∧
    (∀ source : Bytes, (copy source).storage = source ∧
      ((copy source).after steps).source? = some source ∧
      ((copy source).after steps).release.source? = some source) ∧
    (∀ size : Nat, isIndex size = true → ofSize size = .ok (fresh size) ∧
      (fresh size).storage = Bytes.zeros size ∧ ((fresh size).after steps).source? = none) ∧
    ∀ buffer : Bytes, (adopt buffer).storage = buffer ∧
      ((adopt buffer).after steps).source? = some ((adopt buffer).after steps).storage ∧
      ((adopt buffer).after steps).release.source? = some (Bytes.zeros buffer.length) := by
  refine ⟨fun s => guarded s steps, fun source => ?_, fun size hIndex => ?_, fun buffer => ?_⟩
  · have hAfter := alike_after (copy source) steps
    have hGone := hAfter.trans (alike_release _)
    exact ⟨rfl, hAfter.source?_apart rfl nofun, hGone.source?_apart rfl nofun⟩
  · refine ⟨?_, rfl, ?_⟩
    · rw [ofSize, if_pos hIndex, if_neg (by omega)]
      rfl
    · rw [source?, (alike_after (fresh size) steps).given]
      rfl
  · have hAfter := alike_after (adopt buffer) steps
    refine ⟨rfl, hAfter.source?_shared rfl, ?_⟩
    rw [(hAfter.trans (alike_release _)).source?_shared rfl, storage_release, hAfter.length]
    rfl

/-- A byte is set inside a context that a failure leaves; behind it one assignment fails, and one
look at a byte. -/
theorem erased_throughout_escaped :
    perform (.set (-1) 7) ((copy [1, 2, 3]).after [.enter]) =
      (.ok .done, (copy [1, 2, 3]).after [.enter, .set (-1) 7]) ∧
    (∃ place b, Names 3 (-1) place ∧ b.toNat = (7 : Int) ∧ SetAt ((copy [1, 2, 3]).after [.enter])
      place b ((copy [1, 2, 3]).after [.enter, .set (-1) 7])) ∧
    Step.erases (.leave true) = true ∧
    Quiet [.set 3 1, .get 5] ((copy [1, 2, 3]).after [.enter, .set (-1) 7, .leave true]) ∧
    (∀ b ∈ ((copy [1, 2, 3]).after
      [.enter, .set (-1) 7, .leave true, .set 3 1, .get 5]).storage, b = 0) ∧
    ((copy [1, 2, 3]).after
      [.enter, .set (-1) 7, .leave true, .set 3 1, .get 5]).release.source? = some [1, 2, 3] ∧
    isIndex 2 = true ∧ ofSize 2 = .ok (fresh 2) := by
  have hSet : perform (.set (-1) 7) ((copy [1, 2, 3]).after [.enter]) =
      (.ok .done, (copy [1, 2, 3]).after [.enter, .set (-1) 7]) := rfl
  have hQuiet : Quiet [.set 3 1, .get 5]
      ((copy [1, 2, 3]).after [.enter, .set (-1) 7, .leave true]) := by
    intro i v answer t hMem
    rcases List.mem_cons.mp hMem with hFirst | hMem
    · cases hFirst
    · cases List.mem_singleton.mp hMem
  have hEntered : Guarded (copy [1, 2, 3]) [.enter] := (erased_throughout [.enter]).1 _
  obtain ⟨hGuarded, hCopy, hSized, -⟩ :=
    erased_throughout [.enter, .set (-1) 7, .leave true, .set 3 1, .get 5]
  exact ⟨hSet, hEntered.assigned (-1) 7 _ _ hSet, rfl, hQuiet,
    (hGuarded _).blank [.enter, .set (-1) 7] _ _ rfl rfl hQuiet, (hCopy _).2.2, rfl,
    (hSized 2 rfl).1⟩

end Runs
end SshKeys.Secret

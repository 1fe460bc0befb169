import SshKeys.Error
/-!
# How composed computations succeed and fail

A composition succeeds exactly if each of its steps does; the statements come in two forms, for
plain computations and for those that carry a state.
-/
namespace SshKeys

namespace Fallible

variable {ε α β : Type} {x : Except ε α} {a : α} {e : ε}

theorem bind_eq_ok_iff {f : α → Except ε β} {b : β} :
    (x >>= f) = .ok b ↔ ∃ a, x = .ok a ∧ f a = .ok b := by
  cases x with
  | error e => exact ⟨nofun, fun ⟨_, h, _⟩ => nomatch h⟩
  | ok a => exact ⟨fun h => ⟨a, rfl, h⟩, fun ⟨_, h, hf⟩ => by cases h; exact hf⟩

theorem bind_ok {f : α → Except ε β} : (.ok a >>= f) = f a := rfl

theorem bind_error {f : α → Except ε β} : (.error e >>= f) = .error e := rfl

theorem pure_eq_ok_iff {b : α} : (pure a : Except ε α) = .ok b ↔ a = b :=
  (Except.ok.injEq ..).to_iff

theorem map_eq_ok_iff {f : α → β} {b : β} : f <$> x = .ok b ↔ ∃ a, x = .ok a ∧ f a = b := by
  cases x with
  | error e => exact ⟨nofun, fun ⟨_, h, _⟩ => nomatch h⟩
  | ok a => exact ⟨fun h => ⟨a, rfl, Except.ok.inj h⟩, fun ⟨_, h, hf⟩ => by cases h; rw [← hf]; rfl⟩

theorem throwIf_eq_ok_iff {c : Prop} [Decidable c] :
    (if c then (do throw e; x) else x) = .ok a ↔ ¬c ∧ x = .ok a := by
  by_cases hCondition : c
  · simp only [hCondition, if_true, not_true, false_and, iff_false]
    nofun
  · simp only [hCondition, if_false, not_false_eq_true, true_and]

theorem throwUnless_eq_ok_iff {c : Prop} [Decidable c] :
    (if c then x else (do throw e; x)) = .ok a ↔ c ∧ x = .ok a := by
  by_cases hCondition : c
  · simp only [hCondition, if_true, true_and]
  · simp only [hCondition, if_false, false_and, iff_false]
    nofun

theorem elseThrow_eq_ok_iff {c : Prop} [Decidable c] :
    (if c then x else throw e) = .ok a ↔ c ∧ x = .ok a := by
  by_cases hCondition : c
  · simp only [hCondition, if_true, true_and]
  · simp only [hCondition, if_false, false_and, iff_false]
    nofun

end Fallible

namespace Stateful

variable {σ α β : Type} {s s' s'' : σ} {x : EStateM Error σ α} {a : α} {e : Error}

theorem bind_eq_ok_iff {f : α → EStateM Error σ β} {b : β} :
    (x >>= f) s = .ok b s'' ↔ ∃ a s', x s = .ok a s' ∧ f a s' = .ok b s'' := by
  change EStateM.bind x f s = _ ↔ _
  rw [EStateM.bind]
  constructor
  · intro h
    split at h
    · rename_i a s' hx
      exact ⟨a, s', hx, h⟩
    · cases h
  · rintro ⟨a, s', hx, hf⟩
    rw [hx]
    exact hf

theorem pure_eq_ok_iff {b : α} : (pure a : EStateM Error σ α) s = .ok b s' ↔ a = b ∧ s = s' :=
  (EStateM.Result.ok.injEq ..).to_iff

theorem throw_eq_ok_iff {b : α} : (throw e : EStateM Error σ α) s = .ok b s' ↔ False :=
  ⟨nofun, False.elim⟩

theorem get_eq_ok_iff {t : σ} : (get : EStateM Error σ σ) s = .ok t s' ↔ t = s ∧ s' = s :=
  (EStateM.Result.ok.injEq ..).to_iff.trans (and_congr eq_comm eq_comm)

theorem modify_eq_ok_iff {f : σ → σ} {u : PUnit} :
    (modify f : EStateM Error σ PUnit) s = .ok u s' ↔ f s = s' :=
  (EStateM.Result.ok.injEq ..).to_iff.trans (and_iff_right rfl)

theorem map_eq_ok_iff {f : α → β} {b : β} :
    (f <$> x) s = .ok b s' ↔ ∃ a, x s = .ok a s' ∧ f a = b := by
  change EStateM.map f x s = _ ↔ _
  rw [EStateM.map]
  constructor
  · intro h
    split at h
    · rename_i a s₁ hx
      cases h
      exact ⟨a, hx, rfl⟩
    · cases h
  · rintro ⟨a, hx, rfl⟩
    rw [hx]

theorem discard_eq_ok_iff {u : Unit} :
    (discard x : EStateM Error σ Unit) s = .ok u s' ↔ ∃ a, x s = .ok a s' := by
  refine (map_eq_ok_iff (f := fun _ => ())).trans ?_
  simp only [and_true]

theorem throwIf_eq_ok_iff {c : Prop} [Decidable c] :
    (if c then (do throw e; x) else x) s = .ok a s' ↔ ¬c ∧ x s = .ok a s' := by
  by_cases hCondition : c
  · simp only [hCondition, if_true, not_true, false_and, iff_false]
    nofun
  · simp only [hCondition, if_false, not_false_eq_true, true_and]

theorem throwUnless_eq_ok_iff {c : Prop} [Decidable c] :
    (if c then x else (do throw e; x)) s = .ok a s' ↔ c ∧ x s = .ok a s' := by
  by_cases hCondition : c
  · simp only [hCondition, if_true, true_and]
  · simp only [hCondition, if_false, false_and, iff_false]
    nofun

theorem bind_ok {f : α → EStateM Error σ β} (h : x s = .ok a s') : (x >>= f) s = f a s' := by
  change EStateM.bind x f s = _
  rw [EStateM.bind, h]

theorem bind_error {f : α → EStateM Error σ β} (h : x s = .error e s') :
    (x >>= f) s = .error e s' := by
  change EStateM.bind x f s = _
  rw [EStateM.bind, h]

end Stateful
end SshKeys

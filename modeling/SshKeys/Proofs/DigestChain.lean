import SshKeys.Stretch.Password
import Mathlib.Data.List.Basic
/-!
# The digest chain

Whatever the digest function, as long as its digests all have one positive length, drawing from the
chain comes to an end, and what has been drawn is the beginning of the digests put one behind the
other.
-/
namespace SshKeys.Stretch

variable {digest : Bytes → Bytes} {seed last out : Bytes} {size width : Nat}

/-- Drawing without a limit of steps: one digest after the other, the first of them covers `last`,
until no more bytes are wanted. -/
inductive Draws (digest : Bytes → Bytes) (seed : Bytes) : Nat → Bytes → Bytes → Prop
  | enough (last : Bytes) : Draws digest seed 0 last []
  | further {size : Nat} {last next out : Bytes} (hWanted : 0 < size)
      (hNext : next = digest (last ++ seed))
      (h : Draws digest seed (size - next.length) next out) :
      Draws digest seed size last (next.take size ++ out)

theorem draws_chainFrom (hDigest : ∀ message, 0 < (digest message).length) {steps : Nat}
    (hSteps : size ≤ steps) (last : Bytes) :
    Draws digest seed size last (chainFrom digest seed steps size last) := by
  induction steps generalizing size last with
  | zero =>
    rw [Nat.le_zero.mp hSteps]
    exact .enough last
  | succ steps ih =>
    rw [chainFrom]
    by_cases hNone : size = 0
    · rw [if_pos hNone, hNone]
      exact .enough last
    · rw [if_neg hNone]
      apply Draws.further (Nat.pos_of_ne_zero hNone) rfl
      -- every digest adds at least one byte, so there are steps enough
      have hNext := hDigest (last ++ seed)
      apply ih
      omega

theorem Draws.length (h : Draws digest seed size last out) : out.length = size := by
  induction h with
  | enough => rfl
  | further hWanted hNext h ih =>
    rw [List.length_append, List.length_take, ih]
    omega

theorem length_digestChain (hDigest : ∀ message, 0 < (digest message).length)
    (salt password : Bytes) (size : Nat) : (digestChain digest salt password size).length = size :=
  (draws_chainFrom hDigest (Nat.le_refl size) []).length

/-- The digests of a chain, the first one at zero. -/
def digests (digest : Bytes → Bytes) (seed : Bytes) : Nat → Bytes
  | 0 => digest seed
  | i + 1 => digest (digests digest seed i ++ seed)

/-- What is drawn is the beginning of the digests still to come, of any number of them that has
bytes enough. -/
theorem Draws.eq_take (hDigest : ∀ message, (digest message).length = width)
    (h : Draws digest seed size last out) {count i : Nat} (hCount : size ≤ count * width)
    (hFirst : digest (last ++ seed) = digests digest seed i) :
    out = ((List.range' i count).flatMap (digests digest seed)).take size := by
  induction h generalizing count i with
  | enough => rfl
  | @further size last next out hWanted hNext h ih =>
    cases count with
    | zero => omega
    | succ count =>
      rw [Nat.succ_mul] at hCount
      have hLength : next.length = width := hNext ▸ hDigest (last ++ seed)
      rw [hLength] at ih
      have hRest := @ih count (i + 1) (by omega) (by rw [hNext, hFirst]; rfl)
      rw [List.range'_succ, List.flatMap_cons, ← hFirst, ← hNext, List.take_append, hLength, hRest]

theorem digestChainBy_natCast {salt secret : Bytes} {password : Datum}
    (hPassword : password.toBytes = .ok secret) :
    digestChainBy digest salt password size = .ok (digestChain digest salt secret size) := by
  rw [digestChainBy, hPassword]
  rcases Nat.eq_zero_or_pos size with rfl | hWanted
  · rfl
  · rw [if_neg (by omega)]
    rfl

/-- For every digest function with digests of one positive length, every salt, every password that
is text or bytes and every size: drawing ends, with just as many bytes as were asked for, the
beginning of the digests of the chain over the password and the first eight bytes of the salt. A
longer key begins with a shorter one, and of the salt nothing else counts. -/
theorem digestChainBy_series (digest : Bytes → Bytes) {width : Nat} (hWidth : 0 < width)
    (hDigest : ∀ message, (digest message).length = width) (salt : Bytes) {password : Datum}
    (hTextual : ∀ value, password ≠ .foreign value) (size : Nat) :
    ∃ secret key, password.toBytes = .ok secret ∧
      digestChainBy digest salt password size = .ok key ∧
      Draws digest (secret ++ salt.take 8) size [] key ∧
      key.length = size ∧
      (∀ count, size ≤ count * width →
        key = ((List.range count).flatMap (digests digest (secret ++ salt.take 8))).take size) ∧
      (∀ more, size ≤ more →
        ∃ longer, digestChainBy digest salt password more = .ok longer ∧ key <+: longer) ∧
      ∀ other : Bytes, other.take 8 = salt.take 8 →
        digestChainBy digest other password size = .ok key := by
  obtain ⟨secret, hSecret⟩ : ∃ secret, password.toBytes = .ok secret := by
    cases password with
    | text s => exact ⟨_, rfl⟩
    | bytes bs => exact ⟨_, rfl⟩
    | foreign value => exact absurd rfl (hTextual value)
  have hSome : ∀ message, 0 < (digest message).length := by
    intro message
    rw [hDigest]
    exact hWidth
  have hDraws (wanted : Nat) :
      Draws digest (secret ++ salt.take 8) wanted [] (digestChain digest salt secret wanted) :=
    draws_chainFrom hSome (Nat.le_refl wanted) []
  have hTake {wanted count : Nat} (hCount : wanted ≤ count * width) :
      digestChain digest salt secret wanted =
        ((List.range count).flatMap (digests digest (secret ++ salt.take 8))).take wanted := by
    rw [List.range_eq_range']
    exact (hDraws wanted).eq_take hDigest hCount rfl
  refine ⟨secret, digestChain digest salt secret size, hSecret, digestChainBy_natCast hSecret,
    hDraws size, (hDraws size).length, fun count => hTake, ?_, ?_⟩
  · intro more hMore
    refine ⟨digestChain digest salt secret more, digestChainBy_natCast hSecret, ?_⟩
    have hCount : more ≤ more * width := Nat.le_mul_of_pos_right more hWidth
    rw [hTake (Nat.le_trans hMore hCount), hTake hCount]
    exact List.take_prefix_take_left hMore
  · intro other hOther
    rw [digestChainBy_natCast hSecret, digestChain, digestChain, hOther]

/-- A key that ends inside the second digest of MD5; a longer one; a ninth byte of salt. -/
theorem digestChainBy_series_md5 :
    (∀ message, (Md5.digest message).length = 16) ∧
      ∃ key longer, key = [0xF1, 0x92, 0xFC, 0x9C, 0xCD, 0xD1, 0x43, 0x28, 0xB3,
          0x3D, 0x65, 0x30, 0xED, 0x9C, 0xD4, 0x72, 0xE6, 0x3A] ∧
        digestChainBy Md5.digest [1, 2, 3, 4, 5, 6, 7, 8] (.text "happy birthday") 18 = .ok key ∧
        digestChainBy Md5.digest [1, 2, 3, 4, 5, 6, 7, 8, 9] (.text "happy birthday") 18 = .ok key ∧
        digestChainBy Md5.digest [1, 2, 3, 4, 5, 6, 7, 8] (.text "happy birthday") 33 = .ok longer ∧
        key <+: longer := by
  have hTextual : ∀ value, Datum.text "happy birthday" ≠ .foreign value := nofun
  obtain ⟨secret, key, hSecret, hKey, -, -, hSeries, hLonger, hSalt⟩ :=
    digestChainBy_series Md5.digest (show 0 < 16 by decide) (fun _ => rfl) [1, 2, 3, 4, 5, 6, 7, 8]
      hTextual 18
  obtain ⟨longer, hMore, hFront⟩ := hLonger 33 (by decide)
  refine ⟨fun _ => rfl, key, longer, ?_, hKey, hSalt [1, 2, 3, 4, 5, 6, 7, 8, 9] rfl, hMore, hFront⟩
  obtain rfl := Except.ok.inj hSecret
  rw [hSeries 2 (by decide)]
  decide +kernel

end SshKeys.Stretch

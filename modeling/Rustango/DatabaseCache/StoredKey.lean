import Mathlib
import Rustango.Url.Codec

/-!
# Stored keys

A long key, and one that already ends like a hash, is stored as its head, `#` and its SHA-256.
-/

namespace Rustango.DatabaseCache

open Rustango.Url (Text)

def maxRawKeyBytes : Nat := 255

def hashedHeadBytes : Nat := maxRawKeyBytes - 1 - 64

/-- The length in UTF-8. -/
def byteLen (s : Text) : Nat := (s.map Char.utf8Size).sum

/-- One of `0-9a-f`. -/
def isLowerHex (c : Char) : Bool := c.isDigit || (decide ('a' ≤ c) && decide (c ≤ 'f'))

/-- `#` and 64 of these at the end. Each of these bytes is a character of its own. -/
def endsLikeHash (key : Text) : Bool :=
  decide (65 ≤ key.length) && (key.drop (key.length - 65)).head? = some '#' &&
    (key.drop (key.length - 64)).all isLowerHex

/-- The characters that fit in `n` bytes. -/
def cut : Nat → Text → Text
  | _, [] => []
  | n, c :: s => if c.utf8Size ≤ n then c :: cut (n - c.utf8Size) s else []

def head (s : Text) : Text := cut hashedHeadBytes s

/-- SHA-256, in hexadecimal. -/
structure Sha256 where
  hex : Text → Text
  length : ∀ s, (hex s).length = 64
  lower : ∀ s, (hex s).all isLowerHex = true

def hashed (key : Text) : Bool := !(decide (byteLen key ≤ maxRawKeyBytes) && !endsLikeHash key)

/-- `StoredKey::new`. -/
def storedKey (sha : Sha256) (key : Text) : Text := if hashed key then head key ++ '#' :: sha.hex key else key

section Equations
-- Its equations are derived here, once for all the proofs that unfold it.
attribute [local simp] cut
end Equations

private theorem isPrefix_cut (n : Nat) (s : Text) : cut n s <+: s := by
  induction s generalizing n with
  | nil => exact List.prefix_rfl
  | cons c s ih =>
    rw [cut]
    split
    · exact (List.prefix_cons_inj c).2 (ih _)
    · exact List.nil_prefix

theorem cut_of_byteLen {n : Nat} {s : Text} (h : byteLen s ≤ n) : cut n s = s := by
  induction s generalizing n with
  | nil => rfl
  | cons c s ih =>
    simp only [byteLen, List.map_cons, List.sum_cons] at h
    rw [cut, if_pos (by omega), ih (by simp only [byteLen]; omega)]

private theorem cut_mono {p s : Text} (n : Nat) (h : p <+: s) : cut n p <+: cut n s := by
  induction p generalizing n s with
  | nil => exact List.nil_prefix
  | cons c p ih =>
    cases s with
    | nil => simp at h
    | cons d s =>
      obtain ⟨hhead, hrest⟩ := List.cons_prefix_cons.1 h
      subst hhead
      rw [cut, cut]
      split
      · exact (List.prefix_cons_inj c).2 (ih _ hrest)
      · exact List.nil_prefix

section Stored
variable {sha : Sha256} {key key' p : Text}

private theorem storedKey_of_hashed (h : hashed key = true) :
    storedKey sha key = head key ++ '#' :: sha.hex key := if_pos h

private theorem storedKey_of_raw (h : hashed key = false) : storedKey sha key = key := if_neg (by simp [h])

private theorem length_hashed (key : Text) :
    (head key ++ '#' :: sha.hex key).length = (head key).length + 65 := by
  simp [sha.length]

private theorem endsLikeHash_hashed (key : Text) : endsLikeHash (head key ++ '#' :: sha.hex key) = true := by
  have hdrop : (head key ++ '#' :: sha.hex key).drop (head key).length = '#' :: sha.hex key := List.drop_left
  have hhash : (head key ++ '#' :: sha.hex key).drop ((head key).length + 1) = sha.hex key := by
    rw [← List.drop_drop, hdrop, List.drop_one, List.tail_cons]
  unfold endsLikeHash
  rw [length_hashed, Nat.add_sub_cancel, hdrop, show (head key).length + 65 - 64 = (head key).length + 1 from rfl,
    hhash, sha.lower]
  simp

private theorem endsLikeHash_of_raw (h : hashed key = false) : endsLikeHash key = false := by
  simp only [hashed, Bool.not_eq_false', Bool.and_eq_true, Bool.not_eq_true'] at h
  exact h.2

/-- Keys with one stored form have one hash, or are one. -/
theorem storedKey_inj {keys : Set Text} (hinj : Set.InjOn sha.hex keys) (hkey : key ∈ keys) (hkey' : key' ∈ keys)
    (h : storedKey sha key = storedKey sha key') : key = key' := by
  cases hraw : hashed key with
  | false =>
    cases hraw' : hashed key' with
    | false => rwa [storedKey_of_raw hraw, storedKey_of_raw hraw'] at h
    | true =>
      rw [storedKey_of_raw hraw, storedKey_of_hashed hraw'] at h
      have hends := endsLikeHash_of_raw hraw
      rw [h, endsLikeHash_hashed] at hends
      cases hends
  | true =>
    cases hraw' : hashed key' with
    | false =>
      rw [storedKey_of_hashed hraw, storedKey_of_raw hraw'] at h
      have hends := endsLikeHash_of_raw hraw'
      rw [← h, endsLikeHash_hashed] at hends
      cases hends
    | true =>
      rw [storedKey_of_hashed hraw, storedKey_of_hashed hraw'] at h
      have htails := (List.append_inj' h (by simp [sha.length])).2
      exact hinj hkey hkey' (List.cons.inj htails).2

theorem head_prefix_storedKey (h : p <+: key) : head p <+: storedKey sha key := by
  cases hraw : hashed key with
  | false =>
    rw [storedKey_of_raw hraw]
    exact (isPrefix_cut _ p).trans h
  | true =>
    rw [storedKey_of_hashed hraw]
    exact (cut_mono _ h).trans (List.prefix_append _ _)

/-- The text goes past the head of a hashed key. -/
def EntersHash (p stored : Text) : Prop := endsLikeHash stored = true ∧ p <+: stored ∧ stored.length < p.length + 65

instance (p stored : Text) : Decidable (EntersHash p stored) := inferInstanceAs (Decidable (_ ∧ _ ∧ _))

theorem prefix_of_storedKey (h : p <+: storedKey sha key) (hhead : ¬ EntersHash p (storedKey sha key)) : p <+: key := by
  cases hraw : hashed key with
  | false => rwa [storedKey_of_raw hraw] at h
  | true =>
    rw [storedKey_of_hashed hraw] at h hhead
    have hlen : p.length ≤ (head key).length := by
      by_contra hlong
      apply hhead
      refine ⟨endsLikeHash_hashed key, h, ?_⟩
      rw [length_hashed]
      omega
    exact (List.prefix_of_prefix_length_le h (List.prefix_append _ _) hlen).trans (isPrefix_cut _ key)

end Stored

end Rustango.DatabaseCache

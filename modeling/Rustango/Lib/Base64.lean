import Rustango.Lib.Regroup

/-!
# URL-safe base64

What the users of a base64 engine rely on, and the unpadded engine with the alphabet `A-Za-z0-9-_`, which
takes a text only where the bits that fill up its last character are zero.
-/

namespace Rustango.Base64

open Rustango.Regroup

def alphabet : List Char :=
  ['A', 'B', 'C', 'D', 'E', 'F', 'G', 'H', 'I', 'J', 'K', 'L', 'M', 'N', 'O', 'P', 'Q', 'R', 'S', 'T', 'U', 'V',
    'W', 'X', 'Y', 'Z', 'a', 'b', 'c', 'd', 'e', 'f', 'g', 'h', 'i', 'j', 'k', 'l', 'm', 'n', 'o', 'p', 'q', 'r',
    's', 't', 'u', 'v', 'w', 'x', 'y', 'z', '0', '1', '2', '3', '4', '5', '6', '7', '8', '9', '-', '_']

/-- A URL-safe engine without padding. -/
structure Engine where
  encode : List UInt8 → List Char
  decode : List Char → Option (List UInt8)
  decode_encode : ∀ b, decode (encode b) = some b
  mem_alphabet : ∀ b, ∀ c ∈ encode b, c ∈ alphabet

theorem Engine.encode_injective (e : Engine) {a b : List UInt8} (h : e.encode a = e.encode b) : a = b := by
  have hdecode := e.decode_encode a
  rw [h, e.decode_encode] at hdecode
  exact (Option.some.inj hdecode).symm

def encodedLength (bytes : Nat) : Nat := (bytes * 8 + 5) / 6

def encode (b : List UInt8) : List Char :=
  let chars := encodedLength b.length
  (digitsOf 6 chars (valueOf 8 (b.map UInt8.toNat) * 2 ^ (chars * 6 - b.length * 8))).map fun d => alphabet.getD d 'A'

def decode (t : List Char) : Option (List UInt8) :=
  (t.mapM fun c => alphabet.idxOf? c).bind fun ds =>
    let rest := ds.length * 6 % 8
    if rest < 6 ∧ valueOf 6 ds % 2 ^ rest = 0 then
      some ((digitsOf 8 (ds.length * 6 / 8) (valueOf 6 ds / 2 ^ rest)).map UInt8.ofNat)
    else none

theorem idxOf?_getD : ∀ d < 2 ^ 6, alphabet.idxOf? (alphabet.getD d 'A') = some d := by decide

theorem mapM_idxOf? (ds : List Nat) (hds : ∀ d ∈ ds, d < 2 ^ 6) :
    (ds.map fun d => alphabet.getD d 'A').mapM (fun c => alphabet.idxOf? c) = some ds := by
  induction ds with
  | nil => rfl
  | cons d ds ih =>
    rw [List.map_cons, List.mapM_cons, idxOf?_getD d (hds d List.mem_cons_self),
      ih fun e he => hds e (List.mem_cons_of_mem _ he)]
    rfl

theorem decode_encode (b : List UInt8) : decode (encode b) = some b := by
  have hbytes : ∀ d ∈ b.map UInt8.toNat, d < 2 ^ 8 := by
    intro d hd
    obtain ⟨byte, -, hbyte⟩ := List.mem_map.1 hd
    rw [← hbyte]
    exact byte.toNat_lt
  have hvalue := valueOf_lt (b.map UInt8.toNat) (by omega) hbytes
  rw [List.length_map] at hvalue
  have hlength : encodedLength b.length * 6 - b.length * 8 < 6 ∧
      encodedLength b.length * 6 = b.length * 8 + (encodedLength b.length * 6 - b.length * 8) := by
    unfold encodedLength
    omega
  unfold encode decode
  simp only
  rw [mapM_idxOf? _ (digitsOf_lt 6 _ _)]
  generalize encodedLength b.length = chars at hlength ⊢
  generalize chars * 6 - b.length * 8 = pad at hlength ⊢
  have hfits : valueOf 8 (b.map UInt8.toNat) * 2 ^ pad < 2 ^ (6 * chars) := by
    rw [Nat.mul_comm 6, hlength.2, Nat.pow_add, Nat.mul_comm b.length]
    exact Nat.mul_lt_mul_of_pos_right hvalue (Nat.two_pow_pos pad)
  have hrest : chars * 6 % 8 = pad := by omega
  have hcount : chars * 6 / 8 = b.length := by omega
  have hdigits := digitsOf_valueOf 8 (b.map UInt8.toNat) hbytes
  rw [List.length_map] at hdigits
  simp only [Option.bind_some, length_digitsOf, valueOf_digitsOf 6 chars _ hfits, hrest, hcount, hlength.1,
    Nat.mul_mod_left, and_self, if_true, Nat.mul_div_cancel _ (Nat.two_pow_pos pad), hdigits, List.map_map]
  congr 1
  exact (List.map_congr_left fun byte _ => UInt8.ofNat_toNat).trans (List.map_id b)

theorem mem_alphabet_of_mem_encode (b : List UInt8) : ∀ c ∈ encode b, c ∈ alphabet := by
  intro c hc
  obtain ⟨d, hd, hchar⟩ := List.mem_map.1 hc
  have hlt : d < alphabet.length := digitsOf_lt 6 _ _ d hd
  rw [← hchar, List.getD_eq_getElem _ _ hlt]
  exact List.getElem_mem hlt

def urlSafeNoPad : Engine where
  encode := encode
  decode := decode
  decode_encode := decode_encode
  mem_alphabet := mem_alphabet_of_mem_encode

example : encode [0x66, 0x6F] = ['Z', 'm', '8'] := by decide

def standardChar (c : Char) : Char := if c = '-' then '+' else if c = '_' then '/' else c

def urlSafeChar (c : Char) : Char := if c = '+' then '-' else if c = '/' then '_' else c

def encodeStandard (b : List UInt8) : List Char :=
  (encode b).map standardChar ++ List.replicate ((3 - b.length % 3) % 3) '='

/-- Takes a text only with its canonical padding. -/
def decodeStandard (t : List Char) : Option (List UInt8) :=
  (decode ((t.rdropWhile (· = '=')).map urlSafeChar)).filter fun b => encodeStandard b = t

theorem standardChar_alphabet : ∀ c ∈ alphabet, urlSafeChar (standardChar c) = c ∧ standardChar c ≠ '=' := by
  have hall : (alphabet.all fun c => urlSafeChar (standardChar c) = c ∧ standardChar c ≠ '=') = true := by decide
  exact fun c hc => of_decide_eq_true (List.all_eq_true.1 hall c hc)

theorem rdropWhile_padding {t : List Char} (h : '=' ∉ t) (n : Nat) :
    (t ++ List.replicate n '=').rdropWhile (· = '=') = t := by
  induction n with
  | zero =>
    rw [List.replicate_zero, List.append_nil, List.rdropWhile_eq_self_iff]
    intro hne hlast
    exact h (of_decide_eq_true hlast ▸ List.getLast_mem hne)
  | succ n ih =>
    rw [List.replicate_succ', ← List.append_assoc, List.rdropWhile_concat, if_pos (by decide)]
    exact ih

theorem decodeStandard_encodeStandard (b : List UInt8) : decodeStandard (encodeStandard b) = some b := by
  have hkeep : (encodeStandard b).rdropWhile (· = '=') = (encode b).map standardChar := by
    have hplain : '=' ∉ (encode b).map standardChar := by
      intro hmem
      obtain ⟨c, hc, heq⟩ := List.mem_map.1 hmem
      exact (standardChar_alphabet c (mem_alphabet_of_mem_encode b c hc)).2 heq
    exact rdropWhile_padding hplain _
  have hback : ((encode b).map standardChar).map urlSafeChar = encode b := by
    rw [List.map_map]
    exact (List.map_congr_left fun c hc => (standardChar_alphabet c (mem_alphabet_of_mem_encode b c hc)).1).trans
      (List.map_id _)
  rw [decodeStandard, hkeep, hback, decode_encode]
  simp

theorem mem_encodeStandard {b : List UInt8} {c : Char} (hc : c ∈ encodeStandard b) :
    c ∈ alphabet.map standardChar ∨ c = '=' := by
  rcases List.mem_append.1 hc with hc | hc
  · obtain ⟨d, hd, rfl⟩ := List.mem_map.1 hc
    exact .inl (List.mem_map_of_mem (mem_alphabet_of_mem_encode b d hd))
  · exact .inr (List.eq_of_mem_replicate hc)

example : encodeStandard [0x66, 0xFF] = ['Z', 'v', '8', '='] := by decide

end Rustango.Base64

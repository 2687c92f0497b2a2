import Mathlib

/-!
# UTF-8

The bytes of characters, and what a decoder reads from any bytes: a character, or a stretch that begins
no character, which a lossy decoder replaces and a strict one refuses.
-/

namespace Rustango.Utf8

abbrev Bytes := List UInt8

def encode (cs : List Char) : Bytes := cs.flatMap String.utf8EncodeChar

/-- The character that bytes begin with. -/
def readChar (bs : Bytes) : Option Char := bs.toByteArray.utf8DecodeChar? 0

/-- The bytes of a longer sequence after its second. -/
def isTail (b : UInt8) : Bool := 0x80 ≤ b.toNat && b.toNat ≤ 0xBF

/-- The second byte of a sequence of three or four whose first is `a`. -/
def isSecond (a b : UInt8) : Bool :=
  if a.toNat = 0xE0 then 0xA0 ≤ b.toNat && b.toNat ≤ 0xBF
  else if a.toNat = 0xED then 0x80 ≤ b.toNat && b.toNat ≤ 0x9F
  else if a.toNat = 0xF0 then 0x90 ≤ b.toNat && b.toNat ≤ 0xBF
  else if a.toNat = 0xF4 then 0x80 ≤ b.toNat && b.toNat ≤ 0x8F
  else 0xE0 ≤ a.toNat && a.toNat ≤ 0xF4 && isTail b

/-- The length of the stretch that `a` and the bytes after it begin where they begin no character. -/
def badWidth (a : UInt8) (rest : Bytes) : Nat :=
  match rest with
  | [] => 1
  | b :: rest =>
    if isSecond a b then
      match rest with
      | [] => 2
      | c :: _ => if 0xF0 ≤ a.toNat && isTail c then 3 else 2
    else 1

/-- The characters and the bad stretches of bytes, `skip` bytes of the last one still to come. -/
def decode (skip : Nat) : Bytes → List (Option Char)
  | [] => []
  | a :: rest =>
    match skip with
    | skip + 1 => decode skip rest
    | 0 =>
      match readChar (a :: rest) with
      | some c => some c :: decode (c.utf8Size - 1) rest
      | none => none :: decode (badWidth a rest - 1) rest

/-- `String::from_utf8_lossy`. -/
def fromUtf8Lossy (bs : Bytes) : List Char := (decode 0 bs).map fun c => c.getD '\uFFFD'

/-- `str::from_utf8`. -/
def fromUtf8 (bs : Bytes) : Option (List Char) :=
  if (decode 0 bs).all Option.isSome then some ((decode 0 bs).filterMap id) else none

@[simp] theorem encode_nil : encode [] = [] := rfl

@[simp] theorem encode_cons (c : Char) (cs : List Char) :
    encode (c :: cs) = String.utf8EncodeChar c ++ encode cs := rfl

@[simp] theorem encode_append (cs ds : List Char) : encode (cs ++ ds) = encode cs ++ encode ds := by
  simp [encode]

theorem readChar_encodeChar (c : Char) (rest : Bytes) :
    readChar (String.utf8EncodeChar c ++ rest) = some c := by
  rw [readChar, List.toByteArray_append]
  exact ByteArray.utf8DecodeChar?_utf8EncodeChar_append

theorem eq_of_readChar {bs : Bytes} {c : Char} (h : readChar bs = some c) :
    bs = String.utf8EncodeChar c ++ bs.drop c.utf8Size := by
  have heq := congrArg (fun b => b.data.toList) (ByteArray.eq_of_utf8DecodeChar?_eq_some h)
  simp only [List.data_toByteArray, ByteArray.data_append, Array.toList_append] at heq
  have hdrop := congrArg (List.drop c.utf8Size) heq
  rw [List.drop_left' (String.length_utf8EncodeChar c)] at hdrop
  rw [hdrop]
  exact heq

theorem decode_drop (skip : Nat) (bs : Bytes) : decode skip bs = decode 0 (bs.drop skip) := by
  induction bs generalizing skip with
  | nil => simp [decode]
  | cons a rest ih =>
    cases skip with
    | zero => rfl
    | succ skip =>
      rw [decode, List.drop_succ_cons]
      exact ih skip

theorem decode_encodeChar (c : Char) (rest : Bytes) :
    decode 0 (String.utf8EncodeChar c ++ rest) = some c :: decode 0 rest := by
  have hread := readChar_encodeChar c rest
  have hlength : (String.utf8EncodeChar c).length = c.utf8Size := String.length_utf8EncodeChar c
  cases hbytes : String.utf8EncodeChar c with
  | nil =>
    have hpos := c.utf8Size_pos
    simp [hbytes] at hlength
    omega
  | cons a tail =>
    rw [hbytes] at hread hlength
    have hdrop : (tail ++ rest).drop (c.utf8Size - 1) = rest := by
      rw [← hlength]
      simp
    rw [List.cons_append, decode]
    rw [List.cons_append] at hread
    simp only [hread]
    rw [decode_drop, hdrop]

theorem decode_encode (cs : List Char) (rest : Bytes) :
    decode 0 (encode cs ++ rest) = cs.map some ++ decode 0 rest := by
  induction cs with
  | nil => rfl
  | cons c cs ih => rw [encode_cons, List.append_assoc, decode_encodeChar, ih, List.map_cons, List.cons_append]

theorem decode_encode_nil (cs : List Char) : decode 0 (encode cs) = cs.map some := by
  have happend := decode_encode cs []
  simpa [decode] using happend

@[simp] theorem fromUtf8Lossy_encode (cs : List Char) : fromUtf8Lossy (encode cs) = cs := by
  simp [fromUtf8Lossy, decode_encode_nil]

@[simp] theorem fromUtf8_encode (cs : List Char) : fromUtf8 (encode cs) = some cs := by
  simp [fromUtf8, decode_encode_nil]

theorem fromUtf8Lossy_eq_nil (bs : Bytes) : fromUtf8Lossy bs = [] ↔ bs = [] := by
  constructor
  · intro h
    cases bs with
    | nil => rfl
    | cons a rest =>
      rw [fromUtf8Lossy, decode] at h
      cases hread : readChar (a :: rest) <;> simp [hread] at h
  · intro h
    rw [h]
    rfl

theorem encode_eq_nil (cs : List Char) : encode cs = [] ↔ cs = [] := by
  rw [← fromUtf8Lossy_eq_nil, fromUtf8Lossy_encode]

theorem encode_injective {cs ds : List Char} (h : encode cs = encode ds) : cs = ds := by
  have hread := congrArg fromUtf8Lossy h
  simpa using hread

/-- Bytes that are read without a bad stretch are those of what was read. -/
theorem encode_of_decode (cs : List Char) (bs : Bytes) (h : decode 0 bs = cs.map some) : bs = encode cs := by
  induction cs generalizing bs with
  | nil =>
    cases bs with
    | nil => rfl
    | cons a rest =>
      rw [decode] at h
      split at h <;> simp at h
  | cons c cs ih =>
    cases bs with
    | nil => simp [decode] at h
    | cons a rest =>
      rw [decode] at h
      cases hread : readChar (a :: rest) with
      | none => simp [hread] at h
      | some d =>
        simp only [hread, List.map_cons, List.cons.injEq, Option.some.injEq] at h
        have hbytes := eq_of_readChar hread
        have hdrop : (a :: rest).drop d.utf8Size = rest.drop (d.utf8Size - 1) := by
          have hpos := d.utf8Size_pos
          cases hsize : d.utf8Size with
          | zero => omega
          | succ n => simp
        rw [hdrop] at hbytes
        have hrest := h.2
        rw [decode_drop] at hrest
        rw [hbytes, ih _ hrest, h.1, encode_cons]

theorem fromUtf8_eq_some (bs : Bytes) (cs : List Char) : fromUtf8 bs = some cs ↔ bs = encode cs := by
  constructor
  · intro h
    unfold fromUtf8 at h
    split at h
    · rename_i hall
      have hfilter := Option.some.inj h
      have hmap : decode 0 bs = ((decode 0 bs).filterMap id).map some := by
        generalize decode 0 bs = read at hall
        induction read with
        | nil => rfl
        | cons c read ih =>
          cases c with
          | none => simp at hall
          | some c =>
            simp only [List.all_cons, Option.isSome_some, Bool.true_and] at hall
            simpa using ih hall
      rw [hfilter] at hmap
      exact encode_of_decode cs bs hmap
    · cases h
  · intro h
    rw [h, fromUtf8_encode]

def isAscii (b : UInt8) : Bool := b.toNat < 0x80

def asciiChar (c : Char) : Bool := c.toNat < 0x80

theorem encodeChar_ascii (c : Char) (h : c.toNat < 0x80) :
    String.utf8EncodeChar c = [UInt8.ofNat c.toNat] := by
  have hval : c.val.toNat ≤ 0x7f := Nat.le_of_lt_succ h
  unfold String.utf8EncodeChar
  rw [if_pos hval]
  rfl

theorem encodeChar_not_ascii (c : Char) (h : 0x80 ≤ c.toNat) (b : UInt8)
    (hb : b ∈ String.utf8EncodeChar c) : isAscii b = false := by
  have hmax : c.val.toNat < 0x110000 := by
    have hvalid := c.valid
    rcases hvalid with h | h <;> simp at h ⊢ <;> omega
  have hval : ¬ c.val.toNat ≤ 0x7f := by
    change 0x80 ≤ c.val.toNat at h
    omega
  unfold String.utf8EncodeChar at hb
  rw [if_neg hval] at hb
  unfold isAscii
  generalize c.val.toNat = n at hb hmax
  split at hb
  · simp at hb
    rcases hb with rfl | rfl <;> simp <;> omega
  split at hb
  · simp at hb
    rcases hb with rfl | rfl | rfl <;> simp <;> omega
  · simp at hb
    rcases hb with rfl | rfl | rfl | rfl <;> simp <;> omega

theorem encodeChar_ofNat (a : UInt8) (h : isAscii a = true) :
    String.utf8EncodeChar (Char.ofNat a.toNat) = [a] := by
  have hlow : a.toNat < 0x80 := by simpa [isAscii] using h
  have hnat : (Char.ofNat a.toNat).toNat = a.toNat := by
    rw [Char.toNat_ofNat, if_pos]
    left
    omega
  rw [encodeChar_ascii _ (by omega), hnat, UInt8.ofNat_toNat]

theorem countP_encodeChar (c : Char) :
    (String.utf8EncodeChar c).countP isAscii = if asciiChar c then 1 else 0 := by
  by_cases h : c.toNat < 0x80
  · rw [encodeChar_ascii c h]
    simp [asciiChar, isAscii, h]
    omega
  · have hnone : ∀ b ∈ String.utf8EncodeChar c, ¬ isAscii b = true := by
      intro b hb
      simp [encodeChar_not_ascii c (by omega) b hb]
    rw [List.countP_eq_zero.2 hnone]
    simp [asciiChar, h]

theorem isAscii_of_isTail (b : UInt8) (h : isTail b = true) : isAscii b = false := by
  simp [isTail] at h
  simp [isAscii]
  omega

theorem isAscii_of_isSecond (a b : UInt8) (h : isSecond a b = true) : isAscii b = false := by
  unfold isSecond at h
  simp [isAscii]
  split_ifs at h <;> simp [isTail] at h <;> omega

/-- A bad stretch has no byte of ASCII. -/
theorem badWidth_not_ascii (a : UInt8) (rest : Bytes) (b : UInt8) (hb : b ∈ rest.take (badWidth a rest - 1)) :
    isAscii b = false := by
  unfold badWidth at hb
  cases rest with
  | nil => simp at hb
  | cons c rest =>
    by_cases hsecond : isSecond a c = true
    · cases rest with
      | nil =>
        simp [hsecond] at hb
        rw [hb]
        exact isAscii_of_isSecond a c hsecond
      | cons d rest =>
        by_cases hthird : (decide (0xF0 ≤ a.toNat) && isTail d) = true
        · simp only [hsecond, hthird, if_true] at hb
          have htail := isAscii_of_isTail d (by simp at hthird; exact hthird.2)
          simp at hb
          rcases hb with rfl | rfl
          · exact isAscii_of_isSecond a b hsecond
          · exact htail
        · simp only [hsecond, hthird, if_true] at hb
          simp at hb
          rw [hb]
          exact isAscii_of_isSecond a c hsecond
    · simp [hsecond] at hb

/-- A lossy decoder keeps every byte of ASCII and adds none. -/
theorem countP_fromUtf8Lossy (bs : Bytes) : (fromUtf8Lossy bs).countP asciiChar = bs.countP isAscii := by
  induction hlength : bs.length using Nat.strong_induction_on generalizing bs with
  | _ n ih =>
  subst hlength
  cases bs with
  | nil => rfl
  | cons a rest =>
    unfold fromUtf8Lossy
    rw [decode]
    cases hread : readChar (a :: rest) with
    | some c =>
      have hbytes := eq_of_readChar hread
      have hpos := c.utf8Size_pos
      have hdrop : (a :: rest).drop c.utf8Size = rest.drop (c.utf8Size - 1) := by
        cases hsize : c.utf8Size with
        | zero => omega
        | succ n => simp
      rw [hdrop] at hbytes
      have hrest := ih (rest.drop (c.utf8Size - 1)).length (by simp) _ rfl
      unfold fromUtf8Lossy at hrest
      simp only [List.map_cons, Option.getD_some]
      rw [decode_drop, List.countP_cons, hrest, hbytes, List.countP_append, countP_encodeChar]
      omega
    | none =>
      have hfirst : isAscii a = false := by
        cases ha : isAscii a with
        | false => rfl
        | true =>
          have hchar := readChar_encodeChar (Char.ofNat a.toNat) rest
          rw [encodeChar_ofNat a ha, List.singleton_append, hread] at hchar
          cases hchar
      have hstretch : (rest.take (badWidth a rest - 1)).countP isAscii = 0 := by
        apply List.countP_eq_zero.2
        intro b hb
        simp [badWidth_not_ascii a rest b hb]
      have hrest := ih (rest.drop (badWidth a rest - 1)).length (by simp) _ rfl
      unfold fromUtf8Lossy at hrest
      have hsplit : rest.countP isAscii = (rest.drop (badWidth a rest - 1)).countP isAscii := by
        conv_lhs => rw [← List.take_append_drop (badWidth a rest - 1) rest]
        rw [List.countP_append, hstretch, Nat.zero_add]
      simp only [List.map_cons, Option.getD_none]
      rw [decode_drop, List.countP_cons, hrest, List.countP_cons, hsplit, hfirst]
      simp [asciiChar]

end Rustango.Utf8

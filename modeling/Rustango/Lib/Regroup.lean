import Mathlib

/-!
# Regrouping bits

An accumulator that takes digits of one width and writes digits of another, the highest first. It keeps the
number read so far up to a word's size; the digits written are that number without its last bits.
-/

namespace Rustango.Regroup

/-- The number that digits of a width write, the first one highest. -/
def valueOf (width : Nat) (ds : List Nat) : Nat := Nat.ofDigits (2 ^ width) ds.reverse

@[simp] theorem valueOf_nil (width : Nat) : valueOf width [] = 0 := rfl

@[simp] theorem valueOf_concat (width : Nat) (ds : List Nat) (d : Nat) :
    valueOf width (ds ++ [d]) = valueOf width ds * 2 ^ width + d := by
  rw [valueOf, List.reverse_append, List.reverse_singleton, List.singleton_append, Nat.ofDigits_cons, valueOf]
  ring

theorem valueOf_inj {width : Nat} {ds es : List Nat} (hwidth : 0 < width) (hlength : ds.length = es.length)
    (hds : ∀ d ∈ ds, d < 2 ^ width) (hes : ∀ e ∈ es, e < 2 ^ width) (h : valueOf width ds = valueOf width es) :
    ds = es := by
  apply List.reverse_injective
  apply Nat.ofDigits_inj_of_len_eq (Nat.one_lt_two_pow (Nat.pos_iff_ne_zero.1 hwidth))
  · rw [List.length_reverse, List.length_reverse, hlength]
  · intro d hd
    exact hds d (List.mem_reverse.1 hd)
  · intro e he
    exact hes e (List.mem_reverse.1 he)
  · exact h

/-- The last `count` digits of a number. -/
def digitsOf (width : Nat) : Nat → Nat → List Nat
  | 0, _ => []
  | count + 1, value => digitsOf width count (value / 2 ^ width) ++ [value % 2 ^ width]

@[simp] theorem length_digitsOf (width count value : Nat) : (digitsOf width count value).length = count := by
  induction count generalizing value with
  | zero => rfl
  | succ count ih => rw [digitsOf, List.length_append, ih, List.length_singleton]

theorem digitsOf_lt (width count value : Nat) : ∀ d ∈ digitsOf width count value, d < 2 ^ width := by
  induction count generalizing value with
  | zero => simp [digitsOf]
  | succ count ih =>
    intro d hd
    rcases List.mem_append.1 hd with hd | hd
    · exact ih _ d hd
    · rw [List.mem_singleton.1 hd]
      exact Nat.mod_lt _ (Nat.two_pow_pos width)

theorem digitsOf_valueOf (width : Nat) (ds : List Nat) (hds : ∀ d ∈ ds, d < 2 ^ width) :
    digitsOf width ds.length (valueOf width ds) = ds := by
  induction ds using List.reverseRecOn with
  | nil => rfl
  | append_singleton ds d ih =>
    have hd : d < 2 ^ width := hds d (List.mem_append_right _ List.mem_cons_self)
    have hpos : 0 < 2 ^ width := Nat.two_pow_pos width
    have hdiv : (valueOf width ds * 2 ^ width + d) / 2 ^ width = valueOf width ds := by
      rw [Nat.mul_comm, Nat.mul_add_div hpos, Nat.div_eq_of_lt hd, Nat.add_zero]
    rw [List.length_append, List.length_singleton, valueOf_concat, digitsOf, hdiv, Nat.mul_add_mod_of_lt hd,
      ih fun e he => hds e (List.mem_append_left _ he)]

theorem valueOf_lt {width : Nat} (ds : List Nat) (hwidth : 0 < width) (hds : ∀ d ∈ ds, d < 2 ^ width) :
    valueOf width ds < 2 ^ (width * ds.length) := by
  have hbase := Nat.one_lt_two_pow (Nat.pos_iff_ne_zero.1 hwidth)
  have hlt := Nat.ofDigits_lt_base_pow_length hbase (l := ds.reverse) fun d hd => hds d (List.mem_reverse.1 hd)
  rwa [List.length_reverse, ← Nat.pow_mul] at hlt

theorem valueOf_digitsOf (width count value : Nat) (h : value < 2 ^ (width * count)) :
    valueOf width (digitsOf width count value) = value := by
  induction count generalizing value with
  | zero =>
    rw [Nat.mul_zero, Nat.pow_zero] at h
    rw [digitsOf, valueOf_nil]
    omega
  | succ count ih =>
    have hdiv : value / 2 ^ width < 2 ^ (width * count) := by
      apply Nat.div_lt_of_lt_mul
      rwa [← Nat.pow_add, Nat.add_comm, ← Nat.mul_succ]
    rw [digitsOf, valueOf_concat, ih _ hdiv]
    exact Nat.div_add_mod' _ _

/-- Of the `total` bits of `value` all but the last `bits` are written out; the buffer has its low part. -/
structure Holds (width size value total buffer bits : Nat) (out : List Nat) : Prop where
  buffer : buffer = value % 2 ^ size
  count : out.length * width + bits = total
  written : valueOf width out = value / 2 ^ bits
  digits : ∀ d ∈ out, d < 2 ^ width

section Steps
variable {width size value total buffer bits : Nat} {out : List Nat}

theorem Holds.empty (width size : Nat) : Holds width size 0 0 0 0 [] :=
  ⟨by simp, by simp, by simp, by simp⟩

theorem Holds.push (h : Holds width size value total buffer bits out) (wide d : Nat) (hd : d < 2 ^ wide) :
    Holds width size (value * 2 ^ wide + d) (total + wide) ((buffer * 2 ^ wide + d) % 2 ^ size) (bits + wide) out := by
  refine ⟨?_, ?_, ?_, h.digits⟩
  · rw [h.buffer]
    simp [Nat.add_mod, Nat.mul_mod]
  · have hcount := h.count
    omega
  · have hpos : 0 < 2 ^ wide := Nat.two_pow_pos wide
    rw [h.written, Nat.add_comm bits, Nat.pow_add, ← Nat.div_div_eq_div_mul, Nat.mul_comm value,
      Nat.mul_add_div hpos, Nat.div_eq_of_lt hd, Nat.add_zero]

/-- The highest bits that wait are written out. -/
theorem Holds.write (h : Holds width size value total buffer bits out) (hbits : width ≤ bits) (hsize : bits ≤ size) :
    Holds width size value total buffer (bits - width) (out ++ [buffer / 2 ^ (bits - width) % 2 ^ width]) := by
  have hpos : 0 < 2 ^ width := Nat.two_pow_pos width
  have hsplit : 2 ^ bits = 2 ^ (bits - width) * 2 ^ width := by
    rw [← Nat.pow_add, Nat.sub_add_cancel hbits]
  have hrest : 2 ^ size = 2 ^ (bits - width) * 2 ^ (size - (bits - width)) := by
    rw [← Nat.pow_add]
    congr 1
    omega
  have hdvd : 2 ^ width ∣ 2 ^ (size - (bits - width)) := pow_dvd_pow 2 (by omega)
  have hdigit : buffer / 2 ^ (bits - width) % 2 ^ width = value / 2 ^ (bits - width) % 2 ^ width := by
    rw [h.buffer, hrest, Nat.mod_mul_right_div_self, Nat.mod_mod_of_dvd _ hdvd]
  refine ⟨h.buffer, ?_, ?_, ?_⟩
  · have hcount := h.count
    rw [List.length_append, List.length_singleton, Nat.add_mul]
    omega
  · rw [valueOf_concat, h.written, hdigit, hsplit, ← Nat.div_div_eq_div_mul]
    exact Nat.div_add_mod' _ _
  · intro d hd
    rcases List.mem_append.1 hd with hd | hd
    · exact h.digits d hd
    · rw [List.mem_singleton.1 hd]
      exact Nat.mod_lt _ hpos

theorem Holds.flush (h : Holds width size value total buffer bits out) (hbits : bits ≤ width) (hsize : width ≤ size) :
    Holds width size (value * 2 ^ (width - bits)) (total + (width - bits)) (buffer * 2 ^ (width - bits) % 2 ^ size) 0
      (out ++ [buffer * 2 ^ (width - bits) % 2 ^ size % 2 ^ width]) := by
  have hpush := h.push (width - bits) 0 (Nat.two_pow_pos _)
  have hfull : bits + (width - bits) = width := by omega
  simp only [Nat.add_zero] at hpush
  rw [hfull] at hpush
  have hwrite := hpush.write (Nat.le_refl width) hsize
  simpa using hwrite

theorem Holds.eq_of_valueOf {digits : List Nat} (h : Holds width size value total buffer bits out)
    (hwidth : 0 < width) (hlength : digits.length = out.length) (hdigits : ∀ d ∈ digits, d < 2 ^ width)
    (hvalue : value / 2 ^ bits = valueOf width digits) : out = digits :=
  valueOf_inj hwidth hlength.symm h.digits hdigits (h.written.trans hvalue)

end Steps

end Rustango.Regroup

import Mathlib.Data.List.Basic
import Mathlib.Data.List.Nodup
import Mathlib.Data.Nat.Bits
import Mathlib.Algebra.Order.Ring.Nat
import Mathlib.Algebra.Group.Int

/-!
Base32 as the spec fixes it: RFC 4648's alphabet, no padding, most significant bit first.
`base32_encode` and `base32_decode` are not in src/; decoding undoes encoding for bytes of any
length, and a Tiger tree hash is written in 39 characters.
-/

namespace Ncdc

/-- A 24-byte Tiger tree hash, `char tth[24]`. -/
structure Tth where
  bytes : List UInt8
  length_eq : bytes.length = 24
  deriving DecidableEq, Repr

/-- The zeroed hash of a record from `g_slice_new0`. -/
def Tth.zero : Tth := ⟨List.replicate 24 0, List.length_replicate 24 0⟩

/-- The first 24 bytes of `l` over a zeroed hash: what a decoder writing `l` leaves there. -/
def Tth.ofBytes (l : List UInt8) : Tth :=
  ⟨(l ++ List.replicate 24 0).take 24, by simp⟩

theorem Tth.ofBytes_bytes (t : Tth) : Tth.ofBytes t.bytes = t := by
  obtain ⟨l, hl⟩ := t
  simp only [Tth.ofBytes, Tth.mk.injEq]
  rw [← hl, List.take_left]

/-! ### Bits -/

/-- The low `w` bits of `x`, most significant first. -/
def bitsOf : Nat → Nat → List Bool
  | 0, _ => []
  | w + 1, x => x.testBit w :: bitsOf w x

/-- The number a string of bits spells, most significant first. -/
def ofBits : List Bool → Nat
  | [] => 0
  | b :: bs => b.toNat * 2 ^ bs.length + ofBits bs

@[simp] theorem length_bitsOf : ∀ w x, (bitsOf w x).length = w
  | 0, _ => rfl
  | w + 1, x => by simp [bitsOf, length_bitsOf w x]

theorem ofBits_lt : ∀ l : List Bool, ofBits l < 2 ^ l.length
  | [] => by simp [ofBits]
  | b :: bs => by
      have := ofBits_lt bs
      cases b <;> simp [ofBits, pow_succ] <;> omega

theorem ofBits_bitsOf : ∀ w x, ofBits (bitsOf w x) = x % 2 ^ w
  | 0, x => by simp [bitsOf, ofBits, Nat.mod_one]
  | w + 1, x => by
      rw [bitsOf, ofBits, ofBits_bitsOf w x, length_bitsOf, Nat.mod_pow_succ,
        Nat.testBit_to_div_mod]
      rcases Nat.mod_two_eq_zero_or_one (x / 2 ^ w) with h | h <;> simp [h, Nat.add_comm]

theorem ofBits_inj : ∀ {l l' : List Bool}, l.length = l'.length → ofBits l = ofBits l' → l = l'
  | [], [], _, _ => rfl
  | b :: bs, b' :: bs', hl, h => by
      simp only [List.length_cons, Nat.add_right_cancel_iff] at hl
      have h1 := ofBits_lt bs
      have h2 := ofBits_lt bs'
      simp only [ofBits, hl] at h
      rw [hl] at h1
      have hb : b = b' := by cases b <;> cases b' <;> simp at h ⊢ <;> omega
      subst hb
      rw [ofBits_inj hl (by omega)]

theorem bitsOf_ofBits (l : List Bool) : bitsOf l.length (ofBits l) = l :=
  ofBits_inj (by simp) (by rw [ofBits_bitsOf, Nat.mod_eq_of_lt (ofBits_lt l)])

/-! ### The alphabet -/

/-- RFC 4648's base32 alphabet, the characters of the values 0 to 31. -/
def base32Alphabet : List Char := "ABCDEFGHIJKLMNOPQRSTUVWXYZ234567".toList

/-- The character of a five-bit value. -/
def base32Char (v : Nat) : Char := base32Alphabet.getD v 'A'

/-- The five-bit value of a character of the alphabet. -/
def base32Value (c : Char) : Nat := base32Alphabet.indexOf c

theorem base32Char_eq_get {v : Nat} (h : v < base32Alphabet.length) :
    base32Char v = base32Alphabet.get ⟨v, h⟩ := by
  simp only [base32Char, List.getD_eq_getElem?_getD, List.getElem?_eq_getElem h,
    Option.getD_some, List.get_eq_getElem]

theorem base32Alphabet_nodup : base32Alphabet.Nodup := by decide

theorem base32Value_char : ∀ v < 32, base32Value (base32Char v) = v := fun _ h => by
  rw [base32Char_eq_get h, base32Value, List.get_eq_getElem]
  exact List.indexOf_getElem base32Alphabet_nodup _ _

theorem base32Char_mem : ∀ v < 32, base32Char v ∈ base32Alphabet := fun _ h =>
  base32Char_eq_get h ▸ List.get_mem _ _ _

/-! ### Encoding and decoding -/

/-- One character per five bits; fewer than five bits left write nothing. -/
def base32Chars : List Bool → List Char
  | b0 :: b1 :: b2 :: b3 :: b4 :: rest => base32Char (ofBits [b0, b1, b2, b3, b4]) :: base32Chars rest
  | _ => []

/-- One byte per eight bits; fewer than eight bits left are dropped. -/
def bytesOfBits : List Bool → List UInt8
  | b0 :: b1 :: b2 :: b3 :: b4 :: b5 :: b6 :: b7 :: rest =>
      UInt8.ofNat (ofBits [b0, b1, b2, b3, b4, b5, b6, b7]) :: bytesOfBits rest
  | _ => []

/-- The bits of bytes, most significant first. -/
def bytesBits (bytes : List UInt8) : List Bool := bytes.flatMap fun b => bitsOf 8 b.toNat

/-- Modelled from the spec: `base32_encode`, the bits of the bytes and zero bits up to a
multiple of five. -/
def base32Encode (bytes : List UInt8) : List Char :=
  base32Chars (bytesBits bytes ++ List.replicate ((5 - 8 * bytes.length % 5) % 5) false)

/-- Modelled from the spec: `base32_decode`, the complete bytes of the characters' five-bit
values. -/
def base32Decode (s : List Char) : List UInt8 :=
  bytesOfBits (s.flatMap fun c => bitsOf 5 (base32Value c))

theorem base32Chars_append {g : List Bool} (hg : g.length = 5) (rest : List Bool) :
    base32Chars (g ++ rest) = base32Char (ofBits g) :: base32Chars rest := by
  match g, hg with
  | [_, _, _, _, _], _ => rfl

theorem bytesOfBits_append {g : List Bool} (hg : g.length = 8) (rest : List Bool) :
    bytesOfBits (g ++ rest) = UInt8.ofNat (ofBits g) :: bytesOfBits rest := by
  match g, hg with
  | [_, _, _, _, _, _, _, _], _ => rfl

theorem bytesOfBits_short {l : List Bool} (h : l.length < 8) : bytesOfBits l = [] := by
  unfold bytesOfBits
  split
  · simp at h; omega
  · rfl

@[simp] theorem length_bytesBits : ∀ bytes : List UInt8, (bytesBits bytes).length = 8 * bytes.length
  | [] => rfl
  | b :: bs => by
      rw [bytesBits, List.flatMap_cons, List.length_append, length_bitsOf, ← bytesBits,
        length_bytesBits bs, List.length_cons]
      omega

theorem base32Chars_bits : ∀ l : List Bool, l.length % 5 = 0 →
    (base32Chars l).flatMap (fun c => bitsOf 5 (base32Value c)) = l
  | b0 :: b1 :: b2 :: b3 :: b4 :: rest, h => by
      have hg := ofBits_lt [b0, b1, b2, b3, b4]
      have := base32Chars_bits rest (by simp at h; omega)
      simp only [List.length_cons, List.length_nil] at hg
      simp only [base32Chars, List.flatMap_cons, base32Value_char _ hg, this]
      rw [show 5 = [b0, b1, b2, b3, b4].length from rfl, bitsOf_ofBits]; rfl
  | [], _ => rfl
  | [_], h | [_, _], h | [_, _, _], h | [_, _, _, _], h => by simp at h

theorem bytesOfBits_bytesBits : ∀ (bytes : List UInt8) (rest : List Bool),
    bytesOfBits (bytesBits bytes ++ rest) = bytes ++ bytesOfBits rest
  | [], _ => rfl
  | b :: bs, rest => by
      rw [bytesBits, List.flatMap_cons, List.append_assoc,
        bytesOfBits_append (length_bitsOf 8 _), ofBits_bitsOf, ← bytesBits,
        bytesOfBits_bytesBits bs rest,
        Nat.mod_eq_of_lt (show b.toNat < 2 ^ 8 from UInt8.toNat_lt_size b),
        UInt8.toNat.inj (UInt8.toNat_ofNat_of_lt (UInt8.toNat_lt_size b))]
      rfl

theorem base32Decode_encode (bytes : List UInt8) : base32Decode (base32Encode bytes) = bytes := by
  have hl : (bytesBits bytes ++ List.replicate ((5 - 8 * bytes.length % 5) % 5) false).length
      % 5 = 0 := by simp; omega
  rw [base32Decode, base32Encode, base32Chars_bits _ hl, bytesOfBits_bytesBits,
    bytesOfBits_short (by simp; omega), List.append_nil]

theorem length_base32Chars : ∀ l : List Bool, (base32Chars l).length = l.length / 5
  | b0 :: b1 :: b2 :: b3 :: b4 :: rest => by
      simp [base32Chars, length_base32Chars rest]; omega
  | [] => rfl
  | [_] | [_, _] | [_, _, _] | [_, _, _, _] => by simp [base32Chars]

theorem length_base32Encode (t : Tth) : (base32Encode t.bytes).length = 39 := by
  simp [base32Encode, length_base32Chars, t.length_eq]

theorem mem_base32Chars : ∀ {l : List Bool} {c : Char}, c ∈ base32Chars l → c ∈ base32Alphabet
  | b0 :: b1 :: b2 :: b3 :: b4 :: rest, c, h => by
      simp only [base32Chars, List.mem_cons] at h
      rcases h with rfl | h
      · exact base32Char_mem _ (ofBits_lt [b0, b1, b2, b3, b4])
      · exact mem_base32Chars h
  | [], _, h | [_], _, h | [_, _], _, h | [_, _, _], _, h | [_, _, _, _], _, h => by
      simp [base32Chars] at h

theorem mem_base32Encode {bytes : List UInt8} {c : Char} (h : c ∈ base32Encode bytes) :
    c ∈ base32Alphabet :=
  mem_base32Chars h

end Ncdc

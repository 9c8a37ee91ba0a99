import Myrpc.Codec.Colfer.Header
import Mathlib.Tactic.Ring
import Mathlib.Data.List.GetD

/-!
# `Unmarshal` reads back what `MarshalBinary` wrote

`encode` says which bytes a header is: `seqBytes`, then `fieldBytes 1` of the `Method`
and `fieldBytes 2` of the `Error`, then `0x7f`. The proof goes through it from both
sides.

* Encoder: `marshalLen_eq` (the counting loops of `MarshalLen` give the length of
  `encode`) and `marshalTo_eq` (`MarshalTo` on a buffer at least that long writes
  `encode` at its start, never out of range, and returns its length).
* `marshalTo_marshalLen`: so the two loops agree. On a buffer of exactly the length
  `MarshalLen` returns, `MarshalTo` fills the whole buffer and returns that length, and
  `MarshalBinary` never panics: it returns `encode`, or `MarshalLen`'s error.
* Decoder: one lemma per stage on `pre ++ part ++ post`. `seqVarint_varintBytes` and
  `lenVarint_varintBytes` read a varint back, `beValue_beBytes` the eight big-endian
  bytes; `unmarshalSeq_seqBytes` and `unmarshalField_fieldBytes` lift them to the stages,
  and `unmarshalBody_encode` chains the stages.
* `unmarshal_marshalBinary`: for every header that `MarshalLen` accepts with
  `ColferSizeMax` below `2^32` (and within Go's `int`), `MarshalBinary` succeeds and
  both `Unmarshal` and `UnmarshalBinary` into a zero header give the header back, with
  all bytes read.

The varint reader takes a whole byte at `shift == 56` and the length reader works in
32 bits, so the two side conditions are that the `SeqID` varint stops before `shift`
reaches 56 (it does below `2^49`) and that a length fits 32 bits. `MarshalLen`'s count is
unbounded here: with a 32-bit `int` Go's count wraps for a header of `2^31` bytes or
more, so the `w = 32` instance of `unmarshal_marshalBinary` covers only headers whose
length fits in that `int` (which `ColferSizeMax < 2^31` then asks of the accepted ones).
-/

namespace Myrpc.Colfer

/-! ## The serial form -/

/-- The bytes `MarshalTo` writes for a `SeqID` of `x`. -/
def seqBytes (x : Nat) : List UInt8 :=
  if 1 <<< 49 ≤ x then 0x80 :: beBytes x else if x ≠ 0 then 0 :: varintBytes x else []

/-- The bytes `MarshalTo` writes for the `Method` (`tag = 1`) or the `Error` (`tag = 2`). -/
def fieldBytes (tag : UInt8) (s : List UInt8) : List UInt8 :=
  if s.length ≠ 0 then tag :: varintBytes s.length ++ s else []

/-- The Colfer serial form of a header. -/
def encode (o : Header) : List UInt8 :=
  seqBytes o.seqID.toNat ++ fieldBytes 1 o.method ++ fieldBytes 2 o.error ++ [0x7f]

/-! ## Bytes and bits -/

theorem toNat_ofNat' (n : Nat) : (UInt8.ofNat n).toNat = n % 256 := rfl

theorem ofNat_toNat64 (n : UInt64) : UInt64.ofNat n.toNat = n :=
  UInt64.eq_of_toBitVec_eq (by simp [UInt64.ofNat, UInt64.toNat])

/-- An `|` of bits below `2^s` and a multiple of `2^s` is their sum. -/
theorem or_shiftLeft_eq_add {acc c s : Nat} (h : acc < 2 ^ s) :
    acc ||| c <<< s = acc + 2 ^ s * c := by
  rw [Nat.shiftLeft_eq, Nat.or_comm, Nat.mul_comm, ← Nat.mul_add_lt_is_or h, Nat.add_comm]

/-- A continuation byte `byte(x | 0x80)` carries the low seven bits of `x` and the top
bit. -/
theorem toNat_contByte (x : Nat) : (UInt8.ofNat (x ||| 0x80)).toNat = x % 128 + 128 := by
  have h : 2 ^ 7 + x % 2 ^ 7 = 2 ^ 7 ||| x % 2 ^ 7 := by
    simpa using Nat.mul_add_lt_is_or (i := 7) (Nat.mod_lt x (by decide : 0 < 2 ^ 7)) 1
  rw [toNat_ofNat', show (256 : Nat) = 2 ^ 8 from rfl, show (128 : Nat) = 2 ^ 7 from rfl,
    Nat.add_comm, h]
  apply Nat.eq_of_testBit_eq
  intro i
  simp only [Nat.testBit_mod_two_pow, Nat.testBit_or, Nat.testBit_two_pow]
  rcases Nat.lt_trichotomy i 7 with h | rfl | h
  · simp [h, show i < 8 by omega, show ¬ 7 = i by omega]
  · simp
  · simp [show ¬ i < 7 by omega, show ¬ 7 = i by omega]
    omega

theorem contByte_mask (x : Nat) : (x % 128 + 128) &&& 0x7f = x % 128 := by
  rw [show (0x7f : Nat) = 2 ^ 7 - 1 from rfl, Nat.and_pow_two_sub_one_eq_mod]; omega

/-- After a continuation byte, the value read so far still fits below the next shift. -/
theorem add_low_lt {acc shift : Nat} (x : Nat) (h : acc < 2 ^ shift) :
    acc + 2 ^ shift * (x % 128) < 2 ^ (shift + 7) := by
  have := Nat.mod_lt x (show 0 < 128 by decide)
  calc acc + 2 ^ shift * (x % 128) < 2 ^ shift * (x % 128 + 1) := by
        rw [Nat.mul_add, Nat.mul_one]; omega
    _ ≤ 2 ^ shift * 2 ^ 7 := Nat.mul_le_mul_left _ this
    _ = 2 ^ (shift + 7) := (Nat.pow_add _ _ _).symm

theorem add_low_high (acc shift x : Nat) :
    acc + 2 ^ shift * (x % 128) + 2 ^ (shift + 7) * (x / 128) = acc + 2 ^ shift * x := by
  rw [Nat.pow_add, Nat.mul_assoc, Nat.add_assoc, ← Nat.mul_add, Nat.mod_add_div]

/-! ## Varints -/

theorem shr7 (x : Nat) : x >>> 7 = x / 128 := by rw [Nat.shiftRight_eq_div_pow]

theorem varintBytes_of_lt {x : Nat} (h : x < 0x80) : varintBytes x = [UInt8.ofNat x] := by
  rw [varintBytes, if_neg (by omega)]

theorem varintBytes_of_le {x : Nat} (h : 0x80 ≤ x) :
    varintBytes x = UInt8.ofNat (x ||| 0x80) :: varintBytes (x / 128) := by
  rw [varintBytes, if_pos h, shr7]

theorem shifts_of_lt {x : Nat} (h : x < 0x80) : shifts x = 0 := by
  rw [shifts, if_neg (by omega)]

theorem shifts_of_le {x : Nat} (h : 0x80 ≤ x) : shifts x = shifts (x / 128) + 1 := by
  rw [shifts, if_pos h, shr7]

/-- The counting loop of `MarshalLen` and the writing loop of `MarshalTo` agree. -/
theorem length_varintBytes (x : Nat) : (varintBytes x).length = shifts x + 1 := by
  induction x using Nat.strongRecOn with
  | ind x ih =>
    by_cases h : 0x80 ≤ x
    · rw [varintBytes_of_le h, shifts_of_le h, List.length_cons, ih _ (by omega)]
    · rw [varintBytes_of_lt (by omega), shifts_of_lt (by omega)]; rfl

theorem shifts_le {x k : Nat} (h : x < 2 ^ (7 * (k + 1))) : shifts x ≤ k := by
  induction k generalizing x with
  | zero => rw [shifts_of_lt (by simpa using h)]
  | succ k ih =>
    by_cases hx : 0x80 ≤ x
    · have : x / 128 < 2 ^ (7 * (k + 1)) := by
        rw [Nat.div_lt_iff_lt_mul (by decide)]
        rw [show 7 * (k + 1 + 1) = 7 * (k + 1) + 7 by omega, Nat.pow_add] at h
        simpa using h
      have := ih this
      rw [shifts_of_le hx]; omega
    · rw [shifts_of_lt (by omega)]; omega

/-- The `SeqID` loop reads back what the varint loop wrote, as long as it never reaches
`shift == 56`. -/
theorem seqVarint_varintBytes (rest : List UInt8) (x : Nat) :
    ∀ (i shift acc : Nat), acc < 2 ^ shift → shift + 7 * shifts x < 56 →
      seqVarint (varintBytes x ++ rest) i shift acc =
        some (acc + 2 ^ shift * x, i + (varintBytes x).length) := by
  induction x using Nat.strongRecOn with
  | ind x ih =>
    intro i shift acc hacc hs
    by_cases h : 0x80 ≤ x
    · rw [shifts_of_le h] at hs
      rw [varintBytes_of_le h, List.cons_append, seqVarint,
        if_neg (by rw [toNat_contByte]; omega), toNat_contByte, contByte_mask,
        or_shiftLeft_eq_add hacc, ih _ (by omega) _ _ _ (add_low_lt x hacc) (by omega),
        add_low_high, List.length_cons, Nat.add_assoc, Nat.add_comm 1]
    · rw [varintBytes_of_lt (by omega), List.singleton_append, seqVarint,
        if_pos (.inr (by rw [toNat_ofNat']; omega)), toNat_ofNat', Nat.mod_eq_of_lt (by omega),
        or_shiftLeft_eq_add hacc]
      rfl

/-- A length loop reads back what the varint loop wrote, while the value fits 32 bits. -/
theorem lenVarint_varintBytes (rest : List UInt8) (x : Nat) :
    ∀ (i shift acc : Nat), acc < 2 ^ shift → acc + 2 ^ shift * x < 2 ^ 32 →
      lenVarint (varintBytes x ++ rest) i shift acc =
        some (acc + 2 ^ shift * x, i + (varintBytes x).length) := by
  induction x using Nat.strongRecOn with
  | ind x ih =>
    intro i shift acc hacc hs
    have hlow := add_low_high acc shift x
    by_cases h : 0x80 ≤ x
    · rw [varintBytes_of_le h, List.cons_append, lenVarint,
        if_neg (by rw [toNat_contByte]; omega), toNat_contByte, contByte_mask, Nat.shiftLeft_eq,
        Nat.mod_eq_of_lt (by rw [Nat.mul_comm]; omega), ← Nat.shiftLeft_eq,
        or_shiftLeft_eq_add hacc, ih _ (by omega) _ _ _ (add_low_lt x hacc) (by omega), hlow,
        List.length_cons, Nat.add_assoc, Nat.add_comm 1]
    · rw [varintBytes_of_lt (by omega), List.singleton_append, lenVarint,
        if_pos (by rw [toNat_ofNat']; omega), toNat_ofNat', Nat.mod_eq_of_lt (show x < _ by omega),
        Nat.shiftLeft_eq, Nat.mod_eq_of_lt (by rw [Nat.mul_comm]; omega), ← Nat.shiftLeft_eq,
        or_shiftLeft_eq_add hacc]
      rfl

/-! ## The big-endian `SeqID` -/

theorem testBit_byte (x j i : Nat) :
    (((x >>> j) % 256) <<< j).testBit i = (decide (j ≤ i ∧ i < j + 8) && x.testBit i) := by
  simp only [Nat.testBit_shiftLeft, show (256 : Nat) = 2 ^ 8 from rfl, Nat.testBit_mod_two_pow,
    Nat.testBit_shiftRight]
  by_cases h : j ≤ i
  · simp [h, show j + (i - j) = i by omega, show (i - j < 8) ↔ (i < j + 8) by omega]
  · simp [h]

/-- The eight `byte(x>>s)` read back with `<<` and `|` give `x`: each bit of `x` below
64 sits in exactly one byte. -/
theorem beValue_beBytes {x : Nat} (hx : x < 2 ^ 64) (rest : List UInt8) :
    beValue (0x80 :: (beBytes x ++ rest)) 1 = x := by
  simp only [beValue, beBytes, List.map, List.cons_append, List.nil_append, List.getD_cons_succ,
    List.getD_cons_zero, toNat_ofNat']
  rw [← show ((x >>> 0) % 256) <<< 0 = (x >>> 0) % 256 from rfl]
  apply Nat.eq_of_testBit_eq
  intro i
  simp only [Nat.testBit_or, testBit_byte]
  by_cases ht : x.testBit i = true
  · have hi : i < 64 := by
      by_contra h
      rw [Nat.testBit_lt_two_pow (lt_of_lt_of_le hx (Nat.pow_le_pow_right (by decide) (by omega)))]
        at ht
      cases ht
    simp only [ht, Bool.and_true, Bool.or_eq_true, decide_eq_true_eq]
    omega
  · simp only [Bool.not_eq_true] at ht
    simp [ht]

/-! ## Writing -/

/-- Writing a byte at the end of `pre` replaces the byte after it. -/
theorem setByte_append (pre rest : List UInt8) (b c : UInt8) :
    setByte (pre ++ c :: rest) pre.length b = .ok (pre ++ b :: rest) := by
  rw [setByte, if_pos (by simp), List.set_append_right _ _ (Nat.le_refl _), Nat.sub_self]
  rfl

theorem putBytes_append (bs : List UInt8) : ∀ (pre rest : List UInt8), bs.length ≤ rest.length →
    putBytes (pre ++ rest) pre.length bs = .ok (pre ++ bs ++ rest.drop bs.length) := by
  induction bs with
  | nil => intro pre rest _; simp [putBytes]
  | cons b bs ih =>
    intro pre rest h
    obtain ⟨c, rest, rfl⟩ : ∃ c r, rest = c :: r := List.exists_cons_of_ne_nil (by rintro rfl; simp at h)
    simp only [putBytes, setByte_append, bind, Except.bind]
    have := ih (pre ++ [b]) rest (by simpa using h)
    simp only [List.length_append, List.length_singleton, List.append_assoc, List.singleton_append] at this
    simp [this]

theorem putVarint_append (pre rest : List UInt8) (x : Nat) (h : (varintBytes x).length ≤ rest.length) :
    putVarint (pre ++ rest) pre.length x =
      .ok (pre ++ varintBytes x ++ rest.drop (varintBytes x).length, pre.length + (varintBytes x).length) := by
  simp only [putVarint, putBytes_append _ _ _ h, bind, Except.bind, pure, Except.pure]

theorem copyAt_append (pre rest s : List UInt8) (h : s.length ≤ rest.length) :
    copyAt (pre ++ rest) pre.length s = .ok (pre ++ s ++ rest.drop s.length) := by
  rw [copyAt, if_pos (by simp)]
  simp [List.take_of_length_le h, Nat.min_eq_left h]

theorem marshalSeq_eq (x : Nat) (buf : List UInt8) (h : (seqBytes x).length ≤ buf.length) :
    marshalSeq x buf = .ok (seqBytes x ++ buf.drop (seqBytes x).length, (seqBytes x).length) := by
  by_cases h1 : 1 <<< 49 ≤ x
  · rw [seqBytes, if_pos h1] at h ⊢
    have := putBytes_append (0x80 :: beBytes x) [] buf h
    simp only [List.nil_append, List.length_nil] at this
    rw [marshalSeq, if_pos h1]
    simp only [bind, Except.bind, this, pure, Except.pure]
    rfl
  · by_cases h2 : x ≠ 0
    · rw [seqBytes, if_neg h1, if_pos h2] at h ⊢
      obtain ⟨c, rest, rfl⟩ : ∃ c r, buf = c :: r :=
        List.exists_cons_of_ne_nil (by rintro rfl; simp at h)
      have h3 := setByte_append [] rest 0 c
      have h4 := putVarint_append [0] rest x (by simpa using h)
      simp only [List.nil_append, List.length_nil, List.length_singleton, List.singleton_append] at h3 h4
      rw [marshalSeq, if_neg h1, if_pos h2]
      simp only [bind, Except.bind, h3, h4, List.cons_append, List.length_cons]
      rw [Nat.add_comm 1 _, List.drop_succ_cons]
    · rw [seqBytes, if_neg h1, if_neg h2, marshalSeq, if_neg h1, if_neg h2]
      rfl

theorem marshalField_eq (tag : UInt8) (s pre rest : List UInt8)
    (h : (fieldBytes tag s).length ≤ rest.length) :
    marshalField tag s (pre ++ rest) pre.length =
      .ok (pre ++ fieldBytes tag s ++ rest.drop (fieldBytes tag s).length,
        pre.length + (fieldBytes tag s).length) := by
  by_cases hs : s.length ≠ 0
  · rw [fieldBytes, if_pos hs] at h ⊢
    obtain ⟨c, rest, rfl⟩ : ∃ c r, rest = c :: r :=
      List.exists_cons_of_ne_nil (by rintro rfl; simp at h)
    simp only [List.length_cons, List.length_append] at h
    have h2 := putVarint_append (pre ++ [tag]) rest s.length (by omega)
    have h3 := copyAt_append (pre ++ [tag] ++ varintBytes s.length)
      (rest.drop (varintBytes s.length).length) s (by simp; omega)
    simp only [List.length_append, List.length_singleton] at h2 h3
    rw [marshalField, if_pos hs]
    simp only [bind, Except.bind, setByte_append]
    rw [← List.singleton_append, ← List.append_assoc, h2]
    simp only [List.append_assoc, List.singleton_append, List.cons_append, List.nil_append] at h3 ⊢
    rw [h3]
    simp only [pure, Except.pure, List.length_append, List.length_singleton, List.length_cons,
      List.drop_drop, Except.ok.injEq, Prod.mk.injEq]
    refine ⟨?_, by omega⟩
    rw [show (varintBytes s.length).length + s.length + 1 =
      ((varintBytes s.length).length + s.length) + 1 from rfl, List.drop_succ_cons]
  · rw [fieldBytes, if_neg hs, marshalField, if_neg hs]
    simp [pure, Except.pure]

theorem length_seqBytes (x : Nat) : (seqBytes x).length = seqLen x := by
  unfold seqBytes seqLen
  split
  · rfl
  · split
    · simp [length_varintBytes]; omega
    · rfl

theorem length_fieldBytes (tag : UInt8) (s : List UInt8) :
    (fieldBytes tag s).length = fieldLen s.length := by
  unfold fieldBytes fieldLen
  split
  · simp [length_varintBytes]; omega
  · rfl

theorem length_encode (o : Header) : (encode o).length =
    1 + seqLen o.seqID.toNat + fieldLen o.method.length + fieldLen o.error.length := by
  simp [encode, length_seqBytes, length_fieldBytes]; omega

/-- `MarshalLen` counts the bytes of `encode o`. -/
theorem marshalLen_eq (colferSizeMax : Int) (o : Header) :
    marshalLen colferSizeMax o = ((encode o).length,
      if colferSizeMax < (encode o).length then some (.max (maxMsg colferSizeMax)) else none) := by
  rw [marshalLen, length_encode]
  split <;> simp_all

/-- `MarshalTo` writes `encode o` at the start of a buffer that is long enough. -/
theorem marshalTo_eq (o : Header) (buf : List UInt8) (h : (encode o).length ≤ buf.length) :
    marshalTo o buf = .ok (encode o ++ buf.drop (encode o).length, (encode o).length) := by
  obtain ⟨a, ha⟩ : ∃ a, seqBytes o.seqID.toNat = a := ⟨_, rfl⟩
  obtain ⟨b, hb⟩ : ∃ b, fieldBytes 1 o.method = b := ⟨_, rfl⟩
  obtain ⟨c, hc⟩ : ∃ c, fieldBytes 2 o.error = c := ⟨_, rfl⟩
  have he : encode o = a ++ b ++ c ++ [0x7f] := by rw [← ha, ← hb, ← hc]; rfl
  rw [he] at h ⊢
  simp only [List.length_append, List.length_singleton] at h
  have h1 := marshalSeq_eq o.seqID.toNat buf (by rw [ha]; omega)
  have h2 := marshalField_eq 1 o.method a (buf.drop a.length) (by rw [hb]; simp; omega)
  have h3 := marshalField_eq 2 o.error (a ++ b) ((buf.drop a.length).drop b.length)
    (by rw [hc]; simp; omega)
  obtain ⟨d, rest, hrest⟩ : ∃ d r, ((buf.drop a.length).drop b.length).drop c.length = d :: r :=
    List.exists_cons_of_ne_nil (by simp; omega)
  have h4 := setByte_append (a ++ b ++ c) rest 0x7f d
  rw [ha] at h1
  rw [hb] at h2
  rw [hc] at h3
  simp only [List.length_append] at h3 h4
  simp only [marshalTo, bind, Except.bind, h1, h2, h3, hrest, h4, pure, Except.pure]
  simp only [List.drop_drop, List.append_assoc, List.singleton_append, List.length_append,
    List.length_singleton, Except.ok.injEq, Prod.mk.injEq] at hrest ⊢
  refine ⟨?_, by omega⟩
  rw [show a.length + (b.length + (c.length + 1)) = (a.length + b.length + c.length) + 1 by omega,
    ← List.drop_drop, hrest]
  rfl

/-- Without `MarshalLen`'s error, `MarshalBinary` returns `encode o`. -/
theorem marshalBinary_eq {colferSizeMax : Int} {o : Header}
    (h : (encode o).length ≤ colferSizeMax) :
    marshalBinary colferSizeMax o = .ok (some (encode o), none) := by
  rw [marshalBinary, marshalLen_eq, if_neg (by omega)]
  dsimp only
  rw [marshalTo_eq o _ (by simp)]
  simp [bind, Except.bind, pure, Except.pure]

/-- On a buffer of exactly the length `MarshalLen` returns, with or without its error,
`MarshalTo` writes nothing outside the buffer, overwrites all of it (what it leaves is
`encode o`, whatever the buffer held) and returns that length; so `MarshalBinary` never
panics, and returns the bytes `encode o`, or `nil` with `MarshalLen`'s error. -/
theorem marshalTo_marshalLen (colferSizeMax : Int) (o : Header) (buf : List UInt8)
    (hbuf : buf.length = (marshalLen colferSizeMax o).1) :
    marshalTo o buf = .ok (encode o, buf.length) ∧
      marshalBinary colferSizeMax o =
        .ok (if (marshalLen colferSizeMax o).2 = none then some (encode o) else none,
          (marshalLen colferSizeMax o).2) := by
  rw [marshalLen_eq] at hbuf ⊢
  refine ⟨by rw [marshalTo_eq o buf hbuf.ge, List.drop_of_length_le hbuf.le, List.append_nil, hbuf], ?_⟩
  by_cases h : colferSizeMax < (encode o).length
  · simp only [marshalBinary, marshalLen_eq, if_pos h]
    rfl
  · rw [marshalBinary_eq (by omega), if_neg h]
    rfl

/-- The header `⟨300, "ab", ""⟩` takes eight bytes: the tag and two varint bytes of the
`SeqID`, the tag, length and two bytes of the `Method`, and the end byte. -/
theorem seq300_len : 1 + seqLen 300 + fieldLen 2 + fieldLen 0 = 8 := by
  rw [seqLen, if_neg (by decide), if_pos (by decide), shifts_of_le (by decide), shifts_of_lt (by decide),
    fieldLen, if_pos (by decide), shifts_of_lt (by decide)]
  rfl

theorem marshalTo_marshalLen_seq300 :
    (List.replicate 8 (0 : UInt8)).length = (marshalLen (16 * 1024 * 1024) ⟨300, [97, 98], []⟩).1 ∧
      (marshalLen (16 * 1024 * 1024) ⟨300, [97, 98], []⟩).2 = none ∧
      marshalTo ⟨300, [97, 98], []⟩ (List.replicate 8 0) = .ok (encode ⟨300, [97, 98], []⟩, 8) ∧
      marshalBinary (16 * 1024 * 1024) ⟨300, [97, 98], []⟩ = .ok (some (encode ⟨300, [97, 98], []⟩), none) :=
  have h8 : (encode ⟨300, [97, 98], []⟩).length = 8 := by rw [length_encode]; exact seq300_len
  have h : (List.replicate 8 (0 : UInt8)).length = (marshalLen (16 * 1024 * 1024) ⟨300, [97, 98], []⟩).1 := by
    rw [marshalLen_eq, h8]
    rfl
  have he : (marshalLen (16 * 1024 * 1024) ⟨300, [97, 98], []⟩).2 = none := by
    rw [marshalLen_eq, h8]
    rfl
  have hm := marshalTo_marshalLen _ _ _ h
  ⟨h, he, hm.1, by rw [hm.2, he, if_pos rfl]⟩

/-! ## Reading -/

theorem goInt_of_lt {w : Nat} (hw : 0 < w) {n : Int} (h0 : 0 ≤ n) (h : n < 2 ^ (w - 1)) :
    goInt w n = n := by
  have hpow : (2 : Int) ^ w = 2 * 2 ^ (w - 1) := by
    obtain ⟨v, rfl⟩ : ∃ v, w = v + 1 := ⟨w - 1, by omega⟩
    rw [Int.pow_succ, Nat.add_sub_cancel, Int.mul_comm]
  have hmod : n % 2 ^ w = n := Int.emod_eq_of_lt h0 (by rw [hpow]; omega)
  rw [goInt, hmod, if_neg (by omega)]

theorem goInt_natCast {w n : Nat} (hw : 0 < w) (h : n < 2 ^ (w - 1)) : goInt w n = n :=
  goInt_of_lt hw (by omega) (by exact_mod_cast h)

theorem headD_fieldBytes (tag : UInt8) (s post : List UInt8) (hs : s ≠ []) :
    (fieldBytes tag s ++ post).headD 0 = tag := by
  rw [fieldBytes, if_pos (by simpa using hs)]
  rfl

/-- The `SeqID` stage reads back `seqBytes`, and stops at the byte after it. -/
theorem unmarshalSeq_seqBytes {x : Nat} (hx : x < 2 ^ 64) (post : List UInt8) (hpost : post ≠ [])
    (o : Header) (hzero : x = 0 → o.seqID = 0 ∧ post.headD 0 ≠ 0 ∧ post.headD 0 ≠ 0x80) :
    unmarshalSeq o (seqBytes x ++ post) =
      .next { o with seqID := UInt64.ofNat x } (post.headD 0) ((seqBytes x).length + 1) := by
  obtain ⟨h, tail, rfl⟩ := List.exists_cons_of_ne_nil hpost
  by_cases h1 : 1 <<< 49 ≤ x
  · rw [seqBytes, if_pos h1, List.cons_append, unmarshalSeq]
    simp only [show (0x80 : UInt8) ≠ 0 by decide, if_false, if_true]
    rw [if_neg (by simp [beBytes]), beValue_beBytes hx]
    rfl
  · by_cases h2 : x ≠ 0
    · have hsh : shifts x ≤ 6 := shifts_le (by rw [Nat.shiftLeft_eq] at h1; omega)
      have hv := seqVarint_varintBytes (h :: tail) x 1 0 0 (by decide) (by omega)
      rw [seqBytes, if_neg h1, if_pos h2, List.cons_append, unmarshalSeq]
      simp only [if_true, hv, Nat.one_mul, Nat.zero_add]
      rw [show (0 :: (varintBytes x ++ h :: tail))[1 + (varintBytes x).length]? = some h by
        rw [Nat.add_comm, List.getElem?_cons_succ, List.getElem?_append_right (Nat.le_refl _),
          Nat.sub_self]; simp]
      simp [Nat.add_comm]
    · obtain rfl : x = 0 := by omega
      obtain ⟨ho, hne0, hne80⟩ := hzero rfl
      rw [seqBytes, if_neg h1, if_neg h2, List.nil_append, unmarshalSeq]
      simp only [List.headD_cons] at hne0 hne80
      simp only [hne0, hne80, if_false]
      cases o
      simp_all

/-- The `Method` or `Error` stage reads back `fieldBytes`, while `int` does not wrap. -/
theorem unmarshalField_fieldBytes {w : Nat} (hw : 0 < w) (tag : UInt8)
    (set : Header → List UInt8 → Header) (pre s post : List UInt8) (hpost : post ≠ [])
    (hempty : s = [] → post.headD 0 ≠ tag)
    (data : List UInt8) (hd : data = pre ++ fieldBytes tag s ++ post)
    (hlen : data.length ≤ 2 ^ (w - 1)) (hs : s.length < 2 ^ 32) (o : Header) :
    unmarshalField w tag set data (.next o ((fieldBytes tag s ++ post).headD 0) (pre.length + 1)) =
      .next (if s = [] then o else set o s) (post.headD 0) ((pre ++ fieldBytes tag s).length + 1) := by
  subst hd
  by_cases hs0 : s = []
  · subst hs0
    have hf : fieldBytes tag [] = [] := rfl
    simp only [hf, List.append_nil, List.nil_append, if_true]
    rw [unmarshalField, if_neg (hempty rfl)]
  · obtain ⟨h, tail, rfl⟩ := List.exists_cons_of_ne_nil hpost
    have hne : s.length ≠ 0 := by simpa using hs0
    have hf : fieldBytes tag s = tag :: (varintBytes s.length ++ s) := by
      rw [fieldBytes, if_pos hne, List.cons_append]
    rw [headD_fieldBytes _ _ _ hs0, unmarshalField, if_pos rfl, if_neg hs0, hf]
    rw [hf] at hlen
    simp only [List.length_append, List.length_cons] at hlen
    have hdrop : (pre ++ tag :: (varintBytes s.length ++ s) ++ h :: tail).drop (pre.length + 1) =
        varintBytes s.length ++ (s ++ h :: tail) := by
      rw [List.append_assoc, List.drop_append, List.cons_append, List.drop_succ_cons, List.drop_zero,
        List.append_assoc]
    have hv := lenVarint_varintBytes (s ++ h :: tail) s.length (pre.length + 1) 0 0 (by decide)
      (by simpa using hs)
    simp only [hdrop, hv, Nat.zero_add, Nat.pow_zero, Nat.one_mul]
    have hstop : goInt w (↑(pre.length + 1 + (varintBytes s.length).length) + goInt w ↑s.length) =
        ↑(pre.length + 1 + (varintBytes s.length).length + s.length) := by
      rw [goInt_natCast hw (show s.length < _ by omega), ← Int.natCast_add, goInt_natCast hw (by omega)]
    simp only [hstop, Int.toNat_ofNat]
    rw [if_neg (by simp; omega), if_neg (by omega)]
    have hd : (pre ++ tag :: (varintBytes s.length ++ s) ++ h :: tail).drop
        (pre.length + 1 + (varintBytes s.length).length) = s ++ h :: tail := by
      rw [show pre ++ tag :: (varintBytes s.length ++ s) ++ h :: tail =
        (pre ++ tag :: varintBytes s.length) ++ (s ++ h :: tail) by simp, List.drop_left']
      simp; omega
    have hg : (pre ++ tag :: (varintBytes s.length ++ s) ++ h :: tail).getD
        (pre.length + 1 + (varintBytes s.length).length + s.length) 0 = h := by
      have hl : pre.length + 1 + (varintBytes s.length).length + s.length =
          (pre ++ tag :: (varintBytes s.length ++ s)).length := by
        simp only [List.length_append, List.length_cons]; omega
      rw [hl, List.getD_append_right _ _ _ _ le_rfl, Nat.sub_self, List.getD_cons_zero]
    simp only [Nat.add_sub_cancel_left, hd, List.take_left, hg, List.headD_cons, List.length_append,
      List.length_cons]
    congr 1
    omega

theorem unmarshalEnd_next (o : Header) (n : Nat) :
    unmarshalEnd (.next o 0x7f n) = .ok (o, n, none) := rfl

theorem headD_fieldBytes_append (tag : UInt8) (s post : List UInt8) :
    (fieldBytes tag s ++ post).headD 0 = if s = [] then post.headD 0 else tag := by
  split
  · subst s; rfl
  · exact headD_fieldBytes _ _ _ ‹_›

theorem le_fieldLen (x : Nat) : x ≤ fieldLen x := by
  unfold fieldLen; split <;> omega

/-! ## The round trip -/

/-- `Unmarshal` into a zero header reads `encode o` back whole, while `int` does not wrap. -/
theorem unmarshalBody_encode {w : Nat} (hw : 0 < w) (o : Header)
    (hlen : (encode o).length ≤ 2 ^ (w - 1)) (h32 : (encode o).length ≤ 2 ^ 32) :
    unmarshalBody w .zero (encode o) = .ok (o, (encode o).length, none) := by
  have hx : o.seqID.toNat < 2 ^ 64 := o.seqID.toNat_lt_size
  have hl := length_encode o
  have hm : o.method.length < 2 ^ 32 := by
    have := le_fieldLen o.method.length; omega
  have he : o.error.length < 2 ^ 32 := by
    have := le_fieldLen o.error.length; omega
  have h1 := unmarshalSeq_seqBytes hx (fieldBytes 1 o.method ++ fieldBytes 2 o.error ++ [0x7f])
    (by simp) .zero (by
      intro _
      refine ⟨rfl, ?_⟩
      rw [List.append_assoc, headD_fieldBytes_append, headD_fieldBytes_append]
      split <;> [split <;> decide; decide])
  have h2 := unmarshalField_fieldBytes hw 1 (fun o s => { o with method := s })
    (seqBytes o.seqID.toNat) o.method (fieldBytes 2 o.error ++ [0x7f]) (by simp)
    (by intro _; rw [headD_fieldBytes_append]; split <;> decide) (encode o)
    (by simp [encode]) hlen hm
  have h3 := unmarshalField_fieldBytes hw 2 (fun o s => { o with error := s })
    (seqBytes o.seqID.toNat ++ fieldBytes 1 o.method) o.error [0x7f] (by simp) (fun _ => by decide)
    (encode o) rfl hlen he
  have hlen' : (seqBytes o.seqID.toNat ++ fieldBytes 1 o.method ++ fieldBytes 2 o.error).length + 1 =
      (encode o).length := by simp [encode]; omega
  rw [show seqBytes o.seqID.toNat ++
    (fieldBytes 1 o.method ++ fieldBytes 2 o.error ++ [0x7f]) = encode o by simp [encode],
    List.append_assoc] at h1
  rw [unmarshalBody, h1, h2, h3, hlen', List.headD_cons, unmarshalEnd_next]
  congr 2
  cases o
  simp only [Header.zero, ofNat_toNat64]
  split <;> split <;> subst_vars <;> rfl

/-- For every header that `MarshalLen` accepts, `MarshalBinary` succeeds, and
`Unmarshal` and `UnmarshalBinary` into a zero header give the header back, with every
byte read. -/
theorem unmarshal_marshalBinary (w : Nat) (hw : w = 32 ∨ w = 64) (colferSizeMax : Int)
    (hmax : colferSizeMax < 2 ^ 32) (hint : colferSizeMax < 2 ^ (w - 1)) (o : Header)
    (hlen : (marshalLen colferSizeMax o).2 = none) :
    ∃ d, marshalBinary colferSizeMax o = .ok (some d, none) ∧
      unmarshal w colferSizeMax .zero d = .ok (o, d.length, none) ∧
      unmarshalBinary w colferSizeMax .zero d = .ok (o, none) := by
  rw [marshalLen_eq] at hlen
  have hle : ((encode o).length : Int) ≤ colferSizeMax := by
    by_contra h
    rw [if_pos (by omega)] at hlen
    cases hlen
  have hw0 : 0 < w := by omega
  have hbody := unmarshalBody_encode hw0 o (by
      have : ((2 ^ (w - 1) : Nat) : Int) = 2 ^ (w - 1) := by push_cast; rfl
      omega) (by omega)
  have hu : unmarshal w colferSizeMax .zero (encode o) = .ok (o, (encode o).length, none) := by
    rw [unmarshal, if_neg (by omega), hbody]
  refine ⟨encode o, marshalBinary_eq hle, hu, ?_⟩
  rw [unmarshalBinary, hu]
  simp


/-- A header with a two-byte varint `SeqID` and a `Method`, under the default limit. -/
theorem unmarshal_marshalBinary_seq300 :
    (64 = 32 ∨ 64 = 64) ∧ (16 * 1024 * 1024 : Int) < 2 ^ 32 ∧ (16 * 1024 * 1024 : Int) < 2 ^ (64 - 1) ∧
      (marshalLen (16 * 1024 * 1024) ⟨300, [97, 98], []⟩).2 = none ∧
      ∃ d, marshalBinary (16 * 1024 * 1024) ⟨300, [97, 98], []⟩ = .ok (some d, none) ∧
        unmarshal 64 (16 * 1024 * 1024) .zero d = .ok (⟨300, [97, 98], []⟩, d.length, none) ∧
        unmarshalBinary 64 (16 * 1024 * 1024) .zero d = .ok (⟨300, [97, 98], []⟩, none) :=
  have hlen : (marshalLen (16 * 1024 * 1024) ⟨300, [97, 98], []⟩).2 = none := by
    rw [marshalLen_eq, length_encode]
    refine if_neg ?_
    show ¬ (16 * 1024 * 1024 : Int) < ((1 + seqLen 300 + fieldLen 2 + fieldLen 0 : Nat) : Int)
    rw [seq300_len]
    decide
  ⟨.inr rfl, by decide, by decide, hlen,
    unmarshal_marshalBinary 64 (.inr rfl) _ (by decide) (by decide) _ hlen⟩

end Myrpc.Colfer

import Myrpc.Codec.Colfer.Unmarshal

/-!
# What `Unmarshal` accepts

`Unmarshal` accepts more than `MarshalTo` writes: a varint may run longer than it needs
to, a field of length `0` may be present, and a `SeqID` below `2^49` may come as eight
big-endian bytes. Here the stages run on every byte list, for every width `w` of Go's
`int` and every `ColferSizeMax`, and each is summed up once by what it does when it goes
on (`unmarshalSeq_next_cases`, `unmarshalField_next_cases`). Two stage invariants follow
from those: `Step.Valid` (the header byte a stage goes on with is the byte before its
index) and `Step.Short` (what has been read so far takes fewer bytes in `MarshalTo`'s
form than the index).

* `unmarshal_indices`: the count of a success is just after a `0x7f` byte of the data and
  within `ColferSizeMax`, and a `ColferError` names a byte of the data, below
  `ColferSizeMax`, that is not `0x7f`; either way the count is `0` on an error.
* `unmarshalBinary_tail`: `ColferTail(i)` marks where a whole message ends: the first
  `i` bytes, on their own, are accepted with the same header.
* `marshalBinary_unmarshal`: from a zero header, whatever `Unmarshal` accepts,
  `MarshalBinary` writes the header back in no more bytes than were read, without a
  `ColferMax` error; when `ColferSizeMax` is below `2^32` and Go's `int` bound, `Unmarshal`
  reads the same header back from those bytes.
-/

namespace Myrpc.Colfer

/-! ## Go's `int` and the varint loops -/

theorem goInt_emod (w : Nat) (n : Int) : goInt w n % 2 ^ w = n % 2 ^ w := by
  unfold goInt
  split
  · rw [Int.sub_emod, Int.emod_self, Int.sub_zero, Int.emod_emod, Int.emod_emod]
  · exact Int.emod_emod _ _

theorem goInt_lt (w : Nat) (n : Int) : goInt w n < 2 ^ w := by
  have hpos : (0 : Int) < 2 ^ w := by exact_mod_cast Nat.two_pow_pos w
  have := Int.emod_lt_of_pos n hpos
  unfold goInt
  split <;> omega

/-- Unless `data[i:to]` panics, `to := i + int(x)` is `i + x mod 2^w`: the conversions
wrap by multiples of `2^w`, and `to` lies in `[i, 2^w)`. -/
theorem goInt_stop {w j x : Nat} (h : (j : Int) ≤ goInt w (j + goInt w x)) :
    goInt w (j + goInt w x) = ↑(j + x % 2 ^ w) := by
  have hmod : (goInt w (j + goInt w x) - j) % 2 ^ w = (x : Int) % 2 ^ w := by
    rw [Int.sub_emod, goInt_emod, ← Int.sub_emod, add_sub_cancel_left, goInt_emod]
  have hlt := goInt_lt w (j + goInt w x)
  rw [Int.emod_eq_of_lt (by omega) (by omega)] at hmod
  push_cast
  omega

theorem shiftLeft_lt_pow {b k : Nat} (s : Nat) (hb : b < 2 ^ k) : b <<< s < 2 ^ (s + k) := by
  rw [Nat.shiftLeft_eq, Nat.pow_add, Nat.mul_comm]
  exact Nat.mul_lt_mul_of_pos_left hb (Nat.two_pow_pos s)

/-- A length varint read in `j - i` bytes is below `2^(7(j - i))`, the 32-bit cut
included. -/
theorem lenVarint_lt {l : List UInt8} {i shift acc y j : Nat} (hacc : acc < 2 ^ shift)
    (h : lenVarint l i shift acc = some (y, j)) : i < j ∧ y < 2 ^ (shift + 7 * (j - i)) := by
  induction l generalizing i shift acc with
  | nil => cases h
  | cons b rest ih =>
    rw [lenVarint] at h
    have hstep : ∀ c, c < 2 ^ 7 → acc ||| (c <<< shift) % 2 ^ 32 < 2 ^ (shift + 7) := fun c hc =>
      Nat.or_lt_two_pow (hacc.trans_le (Nat.pow_le_pow_right (by decide) (by omega)))
        ((Nat.mod_le _ _).trans_lt (shiftLeft_lt_pow shift hc))
    split at h
    · cases h
      exact ⟨by omega, by simpa using hstep _ (by omega)⟩
    · obtain ⟨hij, hy⟩ := ih (hstep _ (Nat.and_le_right.trans_lt (by decide))) h
      refine ⟨by omega, ?_⟩
      rwa [show shift + 7 + 7 * (j - (i + 1)) = shift + 7 * (j - i) by omega] at hy

/-- A `SeqID` varint from `shift = 7s` fits 64 bits, and below `2^(7(s + j - i))` when
it stopped before `shift` reached `56`. -/
theorem seqVarint_lt {l : List UInt8} {i s acc y j : Nat} (hs : s ≤ 8) (hacc : acc < 2 ^ (7 * s))
    (h : seqVarint l i (7 * s) acc = some (y, j)) :
    i < j ∧ y < 2 ^ 64 ∧ (s + (j - i) ≤ 8 → y < 2 ^ (7 * (s + (j - i)))) := by
  induction l generalizing i s acc with
  | nil => cases h
  | cons b rest ih =>
    rw [seqVarint] at h
    have hb : b.toNat < 2 ^ 8 := b.val.isLt
    have hwide : ∀ k, 7 * s ≤ k → acc < 2 ^ k := fun k hk =>
      hacc.trans_le (Nat.pow_le_pow_right (by decide) hk)
    split at h
    · rename_i hc
      cases h
      simp only [Nat.add_sub_cancel_left]
      refine ⟨by omega, Nat.or_lt_two_pow (hwide 64 (by omega))
        ((shiftLeft_lt_pow (7 * s) hb).trans_le (Nat.pow_le_pow_right (by decide) (by omega))),
        fun hle => Nat.or_lt_two_pow (hwide _ (by omega)) ?_⟩
      simpa [Nat.mul_add] using shiftLeft_lt_pow (7 * s) (show b.toNat < 2 ^ 7 by omega)
    · rw [show 7 * s + 7 = 7 * (s + 1) by ring] at h
      have hacc' : acc ||| (b.toNat &&& 0x7f) <<< (7 * s) < 2 ^ (7 * (s + 1)) :=
        Nat.or_lt_two_pow (hwide _ (by omega))
          (by simpa [Nat.mul_add] using shiftLeft_lt_pow (7 * s) (Nat.and_le_right.trans_lt (by decide)))
      obtain ⟨hij, h64, hfit⟩ := ih (by omega) hacc' h
      exact ⟨by omega, h64, fun hle => by
        rw [show s + (j - i) = s + 1 + (j - (i + 1)) by omega]; exact hfit (by omega)⟩

theorem seqVarint_index {l : List UInt8} {i shift x y j : Nat}
    (h : seqVarint l i shift x = some (y, j)) : i < j := by
  induction l generalizing i shift x with
  | nil => cases h
  | cons b rest ih =>
    rw [seqVarint] at h
    split at h
    · cases h
      omega
    · have := ih h
      omega

theorem lenVarint_index {l : List UInt8} {i shift x y j : Nat}
    (h : lenVarint l i shift x = some (y, j)) : i < j := by
  induction l generalizing i shift x with
  | nil => cases h
  | cons b rest ih =>
    rw [lenVarint] at h
    split at h
    · cases h
      omega
    · have := ih h
      omega

/-- The `SeqID` loop reads only the `j - i` bytes it consumed. -/
theorem seqVarint_take {l : List UInt8} {i shift x y j : Nat}
    (h : seqVarint l i shift x = some (y, j)) : ∀ m, j - i ≤ m →
      seqVarint (l.take m) i shift x = some (y, j) := by
  induction l generalizing i shift x with
  | nil => cases h
  | cons b rest ih =>
    intro m hm
    have hij := seqVarint_index h
    obtain ⟨m, rfl⟩ : ∃ m', m = m' + 1 := ⟨m - 1, by omega⟩
    rw [List.take_succ_cons, seqVarint]
    rw [seqVarint] at h
    split at h
    · rwa [if_pos ‹_›]
    · rw [if_neg ‹_›]
      exact ih h m (by omega)

/-- A length loop reads only the `j - i` bytes it consumed. -/
theorem lenVarint_take {l : List UInt8} {i shift x y j : Nat}
    (h : lenVarint l i shift x = some (y, j)) : ∀ m, j - i ≤ m →
      lenVarint (l.take m) i shift x = some (y, j) := by
  induction l generalizing i shift x with
  | nil => cases h
  | cons b rest ih =>
    intro m hm
    have hij := lenVarint_index h
    obtain ⟨m, rfl⟩ : ∃ m', m = m' + 1 := ⟨m - 1, by omega⟩
    rw [List.take_succ_cons, lenVarint]
    rw [lenVarint] at h
    split at h
    · rwa [if_pos ‹_›]
    · rw [if_neg ‹_›]
      exact ih h m (by omega)

/-! ## What each stage does -/

/-- What the `SeqID` stage does when it goes on: a varint `SeqID` after a `0` byte, eight
big-endian bytes after a `0x80` byte, or no `SeqID`, the first byte being the next
header. -/
theorem unmarshalSeq_next_cases {o o' : Header} {d : List UInt8} {h : UInt8} {i : Nat}
    (hs : unmarshalSeq o d = .next o' h i) :
    (∃ rest x j, d = 0 :: rest ∧ seqVarint rest 1 0 0 = some (x, j) ∧
      o' = { o with seqID := UInt64.ofNat x } ∧ d[j]? = some h ∧ i = j + 1) ∨
    (9 < d.length ∧ d[0]? = some 0x80 ∧ o' = { o with seqID := UInt64.ofNat (beValue d 1) } ∧
      d[9]? = some h ∧ i = 10) ∨
    (d[0]? = some h ∧ h ≠ 0 ∧ h ≠ 0x80 ∧ o' = o ∧ i = 1) := by
  unfold unmarshalSeq at hs
  split at hs
  · cases hs
  · rename_i header rest
    split at hs
    · subst header
      split at hs
      · cases hs
      · rename_i x j hv
        split at hs
        · cases hs
        · rename_i h' hj
          cases hs
          exact .inl ⟨rest, x, j, rfl, hv, rfl, hj, rfl⟩
    · split at hs
      · subst header
        split at hs
        · cases hs
        · rename_i hlen
          have hlen' : 8 < rest.length := by simpa using hlen
          cases hs
          exact .inr (.inl ⟨by simp only [List.length_cons]; omega, List.getElem?_cons_zero, rfl,
            by simp [List.getD_eq_getElem?_getD, List.getElem?_eq_getElem hlen'], rfl⟩)
      · rename_i h0 h80
        cases hs
        exact .inr (.inr ⟨List.getElem?_cons_zero, h0, h80, rfl, rfl⟩)

/-- What a field stage does when it goes on: it passes on a header byte that is not its
tag, or it reads a length varint of `x` after the tag and the `x mod 2^w` bytes after that
(a wrapped `to := i + int(x)` that does not panic wraps by a multiple of `2^w`), and goes
on at the byte behind them. -/
theorem unmarshalField_next_cases {w : Nat} {tag : UInt8} {set : Header → List UInt8 → Header}
    {d : List UInt8} {o o' : Header} {h h' : UInt8} {i i' : Nat}
    (hs : unmarshalField w tag set d (.next o h i) = .next o' h' i') :
    (h ≠ tag ∧ o' = o ∧ h' = h ∧ i' = i) ∨
      (h = tag ∧ ∃ x j, lenVarint (d.drop i) i 0 0 = some (x, j) ∧
        goInt w (j + goInt w x) = ↑(j + x % 2 ^ w) ∧
        o' = set o ((d.drop j).take (x % 2 ^ w)) ∧ d[j + x % 2 ^ w]? = some h' ∧
        i' = j + x % 2 ^ w + 1) := by
  rw [unmarshalField] at hs
  by_cases htag : h = tag
  · rw [if_pos htag] at hs
    refine .inr ⟨htag, ?_⟩
    rcases hv : lenVarint (d.drop i) i 0 0 with _ | ⟨x, j⟩
    · rw [hv] at hs
      cases hs
    · rw [hv] at hs
      dsimp only at hs
      split at hs
      · cases hs
      · rename_i hlen
        split at hs
        · cases hs
        · rename_i hle
          have hstop : goInt w (j + goInt w x) = ↑(j + x % 2 ^ w) := goInt_stop (by omega)
          rw [hstop] at hs hlen
          simp only [Int.toNat_ofNat, Nat.add_sub_cancel_left, Step.next.injEq] at hs
          obtain ⟨rfl, rfl, rfl⟩ := hs
          have hlt : j + x % 2 ^ w < d.length := by omega
          exact ⟨x, j, rfl, hstop, rfl, by simp [List.getD_eq_getElem?_getD, hlt], rfl⟩
  · rw [if_neg htag] at hs
    cases hs
    exact .inl ⟨htag, rfl, rfl, rfl⟩

theorem unmarshalSeq_ret {o o' : Header} {d : List UInt8} {n : Nat} {err : Option ColferErr}
    (hs : unmarshalSeq o d = .ret o' n err) : err = some .eof := by
  unfold unmarshalSeq at hs
  repeat' split at hs
  all_goals first | (cases hs; rfl) | cases hs

theorem unmarshalField_next_ret {w : Nat} {tag : UInt8} {set : Header → List UInt8 → Header}
    {d : List UInt8} {o o' : Header} {h : UInt8} {i n : Nat} {err : Option ColferErr}
    (hs : unmarshalField w tag set d (.next o h i) = .ret o' n err) : err = some .eof := by
  rw [unmarshalField] at hs
  split at hs
  · rcases hv : lenVarint (d.drop i) i 0 0 with _ | ⟨x, j⟩
    · rw [hv] at hs
      cases hs
      rfl
    · rw [hv] at hs
      dsimp only at hs
      split at hs
      · cases hs
        rfl
      · split at hs <;> cases hs
  · cases hs

theorem unmarshalField_next_le {w : Nat} {tag : UInt8} {set : Header → List UInt8 → Header}
    {d : List UInt8} {o o' : Header} {h h' : UInt8} {i i' : Nat}
    (hs : unmarshalField w tag set d (.next o h i) = .next o' h' i') : i ≤ i' := by
  rcases unmarshalField_next_cases hs with ⟨-, -, -, rfl⟩ | ⟨-, x, j, hv, -, -, -, rfl⟩
  · exact le_rfl
  · have := lenVarint_index hv
    omega

/-- The `SeqID` stage reads nothing at or after the index it goes on at. -/
theorem unmarshalSeq_take {o o' : Header} {d : List UInt8} {h : UInt8} {i m : Nat}
    (hs : unmarshalSeq o d = .next o' h i) (hm : i ≤ m) :
    unmarshalSeq o (d.take m) = .next o' h i := by
  rcases unmarshalSeq_next_cases hs with ⟨rest, x, j, rfl, hv, rfl, hj, rfl⟩ |
      ⟨h9, h0, rfl, hh, rfl⟩ | ⟨h0, hne0, hne80, rfl, rfl⟩
  · have hj1 := seqVarint_index hv
    obtain ⟨m, rfl⟩ : ∃ m', m = m' + 1 := ⟨m - 1, by omega⟩
    rw [List.take_succ_cons, unmarshalSeq, if_pos rfl, seqVarint_take hv m (by omega)]
    dsimp only
    rw [← List.take_succ_cons, List.getElem?_take_of_lt (by omega), hj]
  · cases d with
    | nil => cases h0
    | cons b rest =>
      obtain rfl : b = 0x80 := by simpa using h0
      have h9' : 9 ≤ ((0x80 :: rest).take m).length := by simp only [List.length_take]; omega
      have hbe := beValue_append ((0x80 :: rest).drop m) h9'
      rw [List.take_append_drop] at hbe
      obtain ⟨m, rfl⟩ : ∃ m', m = m' + 1 := ⟨m - 1, by omega⟩
      have hh' : (rest.take m).getD 8 0 = h := by
        rw [List.getD_eq_getElem?_getD, List.getElem?_take_of_lt (by omega),
          show rest[8]? = some h by simpa using hh]
        rfl
      rw [hbe, List.take_succ_cons, unmarshalSeq, if_neg (by decide), if_pos rfl,
        if_neg (by simp only [List.length_cons, List.length_take] at h9 ⊢; omega)]
      simp only [List.getD_cons_succ, hh']
  · cases d with
    | nil => cases h0
    | cons b rest =>
      obtain rfl : b = h := by simpa using h0
      obtain ⟨m, rfl⟩ : ∃ m', m = m' + 1 := ⟨m - 1, by omega⟩
      rw [List.take_succ_cons, unmarshalSeq, if_neg hne0, if_neg hne80]

/-- A field stage reads nothing at or after the index it goes on at. -/
theorem unmarshalField_take {w : Nat} {tag : UInt8} {set : Header → List UInt8 → Header}
    {d : List UInt8} {o o' : Header} {h h' : UInt8} {i i' m : Nat}
    (hs : unmarshalField w tag set d (.next o h i) = .next o' h' i') (hm : i' ≤ m) :
    unmarshalField w tag set (d.take m) (.next o h i) = .next o' h' i' := by
  rcases unmarshalField_next_cases hs with ⟨hne, rfl, rfl, rfl⟩ | ⟨rfl, x, j, hv, hstop, rfl, hh, rfl⟩
  · rw [unmarshalField, if_neg hne]
  · have hlt := (List.getElem?_eq_some_iff.mp hh).1
    have hij := lenVarint_index hv
    rw [unmarshalField, if_pos rfl, List.drop_take, lenVarint_take hv _ (by omega)]
    dsimp only
    rw [hstop, if_neg (by rw [List.length_take]; omega), if_neg (by omega)]
    simp only [Int.toNat_ofNat, Nat.add_sub_cancel_left, List.drop_take, List.take_take,
      Nat.min_eq_left (show x % 2 ^ w ≤ m - j by omega), List.getD_eq_getElem?_getD,
      List.getElem?_take_of_lt (show j + x % 2 ^ w < m by omega), hh, Option.getD_some]

/-- The stages of `unmarshalBody` before the end byte. -/
def bodySteps (w : Nat) (o : Header) (d : List UInt8) : Step :=
  unmarshalField w 2 (fun o s => { o with error := s }) d <|
    unmarshalField w 1 (fun o s => { o with method := s }) d <| unmarshalSeq o d

theorem unmarshalBody_eq (w : Nat) (o : Header) (d : List UInt8) :
    unmarshalBody w o d = unmarshalEnd (bodySteps w o d) := rfl

/-- The stages read nothing at or after the index they go on at. -/
theorem bodySteps_take {w : Nat} {o o' : Header} {d : List UInt8} {h : UInt8} {n m : Nat}
    (hs : bodySteps w o d = .next o' h n) (hm : n ≤ m) : bodySteps w o (d.take m) = .next o' h n := by
  obtain ⟨o₁, h₁, i₁, h1⟩ := unmarshalField_next_inv hs
  obtain ⟨o₀, h₀, i₀, h0⟩ := unmarshalField_next_inv h1
  unfold bodySteps at hs ⊢
  rw [h1] at hs
  rw [h0] at h1
  have hle₂ := unmarshalField_next_le hs
  have hle₁ := unmarshalField_next_le h1
  rw [unmarshalSeq_take h0 (by omega), unmarshalField_take h1 (by omega), unmarshalField_take hs hm]

/-! ## Where a stage leaves off -/

/-- What a stage may leave on data `d`: the header byte it goes on with is the byte just
before the index it goes on at, and the only error it returns is `io.EOF`. -/
def Step.Valid (d : List UInt8) : Step → Prop
  | .next _ h i => 0 < i ∧ d[i - 1]? = some h
  | .ret _ _ err => err = some .eof
  | .panic _ => True

theorem Step.valid_unmarshalSeq (o : Header) (d : List UInt8) : (unmarshalSeq o d).Valid d := by
  rcases hs : unmarshalSeq o d with ⟨o', n, err⟩ | msg | ⟨o', h, i⟩
  · exact unmarshalSeq_ret hs
  · trivial
  · rcases unmarshalSeq_next_cases hs with ⟨-, -, j, -, -, -, hj, rfl⟩ | ⟨-, -, -, h9, rfl⟩ |
        ⟨h0, -, -, -, rfl⟩
    · exact ⟨by omega, hj⟩
    · exact ⟨by omega, h9⟩
    · exact ⟨by omega, h0⟩

theorem Step.valid_unmarshalField {w : Nat} {tag : UInt8} {set : Header → List UInt8 → Header}
    {d : List UInt8} {s : Step} (hs : s.Valid d) : (unmarshalField w tag set d s).Valid d := by
  cases s with
  | next o h i =>
    rcases hf : unmarshalField w tag set d (.next o h i) with ⟨o', n, err⟩ | msg | ⟨o', h', i'⟩
    · exact unmarshalField_next_ret hf
    · trivial
    · rcases unmarshalField_next_cases hf with ⟨-, -, rfl, rfl⟩ | ⟨-, x, j, -, -, -, hh, rfl⟩
      · exact hs
      · exact ⟨by omega, hh⟩
  | ret => exact hs
  | panic => trivial

theorem bodySteps_valid (w : Nat) (o : Header) (d : List UInt8) : (bodySteps w o d).Valid d :=
  Step.valid_unmarshalField (Step.valid_unmarshalField (Step.valid_unmarshalSeq o d))

/-- A body that returns no error went on to the end byte at the count it returns. -/
theorem bodySteps_of_ok {w : Nat} {o o' : Header} {d : List UInt8} {n : Nat}
    (hd : unmarshalBody w o d = .ok (o', n, none)) : bodySteps w o d = .next o' 0x7f n := by
  have hv := bodySteps_valid w o d
  rw [unmarshalBody_eq] at hd
  rcases unmarshalEnd_eq_ok_none hd with hn | hn
  · exact hn
  · rw [hn] at hv
    cases hv

/-- A `ColferError` names the byte read as the last header: a byte of the data that is
not the end byte `0x7f`. -/
theorem unmarshalEnd_error {d : List UInt8} {s : Step} {o : Header} {n k : Nat} (hv : s.Valid d)
    (hd : unmarshalEnd s = .ok (o, n, some (.error k))) : n = 0 ∧ ∃ b, d[k]? = some b ∧ b ≠ 0x7f := by
  cases s with
  | next o₀ h₀ i₀ =>
    rw [unmarshalEnd] at hd
    split at hd
    · rename_i h7
      cases hd
      exact ⟨rfl, h₀, hv.2, h7⟩
    · cases hd
  | ret o₀ n₀ err =>
    cases hd
    cases hv
  | panic => cases hd

theorem unmarshalBody_error {w : Nat} {o o' : Header} {d : List UInt8} {n k : Nat}
    (hd : unmarshalBody w o d = .ok (o', n, some (.error k))) :
    n = 0 ∧ ∃ b, d[k]? = some b ∧ b ≠ 0x7f :=
  unmarshalEnd_error (bodySteps_valid w o d) hd

/-- What `Unmarshal` returns without `ColferMax` is what the body returns on the first `k`
bytes of the data, for a `k` within `ColferSizeMax`. -/
theorem unmarshal_prefix {w : Nat} {colferSizeMax : Int} {o o' : Header} {data : List UInt8}
    {n : Nat} {err : Option ColferErr} (hd : unmarshal w colferSizeMax o data = .ok (o', n, err))
    (hmax : ∀ msg, err ≠ some (.max msg)) :
    ∃ k : Nat, (k : Int) ≤ colferSizeMax ∧ unmarshalBody w o (data.take k) = .ok (o', n, err) := by
  unfold unmarshal at hd
  split at hd
  · split at hd
    · cases hd
    · refine ⟨colferSizeMax.toNat, by omega, ?_⟩
      split at hd
      · cases hd
        exact absurd rfl (hmax _)
      · exact hd
  · exact ⟨data.length, by omega, by rwa [List.take_length]⟩

/-- A success of `Unmarshal` is one of its body on the first `k` bytes, `k` within
`ColferSizeMax`, and has read `n ≤ k` bytes, the last of them `0x7f`. -/
theorem unmarshal_ok {w : Nat} {colferSizeMax : Int} {o o' : Header} {data : List UInt8} {n : Nat}
    (hd : unmarshal w colferSizeMax o data = .ok (o', n, none)) :
    ∃ k : Nat, (k : Int) ≤ colferSizeMax ∧ unmarshalBody w o (data.take k) = .ok (o', n, none) ∧
      0 < n ∧ n ≤ k ∧ n ≤ data.length ∧ data[n - 1]? = some 0x7f := by
  obtain ⟨k, hk, hb⟩ := unmarshal_prefix hd (fun _ => by simp)
  have hv : 0 < n ∧ (data.take k)[n - 1]? = some 0x7f := by
    have := bodySteps_valid w o (data.take k)
    rwa [bodySteps_of_ok hb] at this
  have hn := (List.getElem?_eq_some_iff.mp hv.2).1
  simp only [List.length_take] at hn
  rw [List.getElem?_take_of_lt (by omega)] at hv
  exact ⟨k, hk, hb, hv.1, by omega, by omega, hv.2⟩

theorem unmarshal_indices (w : Nat) (colferSizeMax : Int) (o : Header) (data : List UInt8)
    (o' : Header) (n k : Nat) :
    (unmarshal w colferSizeMax o data = .ok (o', n, none) →
      0 < n ∧ (n : Int) ≤ colferSizeMax ∧ data[n - 1]? = some 0x7f) ∧
    (unmarshal w colferSizeMax o data = .ok (o', n, some (.error k)) →
      n = 0 ∧ (k : Int) < colferSizeMax ∧ ∃ b, data[k]? = some b ∧ b ≠ 0x7f) := by
  constructor
  · intro hd
    obtain ⟨k, hk, -, hn, hnk, -, h7⟩ := unmarshal_ok hd
    exact ⟨hn, by omega, h7⟩
  · intro hd
    obtain ⟨m, hm, hb⟩ := unmarshal_prefix hd (fun _ => by simp)
    obtain ⟨rfl, b, hk, h7⟩ := unmarshalBody_error hb
    have hlt := (List.getElem?_eq_some_iff.mp hk).1
    simp only [List.length_take] at hlt
    rw [List.getElem?_take_of_lt (by omega)] at hk
    exact ⟨rfl, by omega, b, hk, h7⟩

/-- A success with data after the message, and a `Method` followed by a second tag `1`. -/
theorem unmarshal_indices_method :
    (0 < 4 ∧ ((4 : Nat) : Int) ≤ 16 * 1024 * 1024 ∧
        ([1, 1, 97, 0x7f, 5] : List UInt8)[4 - 1]? = some 0x7f) ∧
      (0 = 0 ∧ ((3 : Nat) : Int) < 16 * 1024 * 1024 ∧
        ∃ b, ([1, 1, 97, 1, 0x7f] : List UInt8)[3]? = some b ∧ b ≠ 0x7f) :=
  ⟨(unmarshal_indices 64 (16 * 1024 * 1024) .zero [1, 1, 97, 0x7f, 5] ⟨0, [97], []⟩ 4 0).1 rfl,
    (unmarshal_indices 64 (16 * 1024 * 1024) .zero [1, 1, 97, 1, 0x7f] ⟨0, [97], []⟩ 0 3).2 rfl⟩

/-! ## A message on its own -/

/-- `Unmarshal`'s body reads nothing past the count it returns. -/
theorem unmarshalBody_take {w : Nat} {o o' : Header} {d : List UInt8} {n : Nat}
    (hd : unmarshalBody w o d = .ok (o', n, none)) : unmarshalBody w o (d.take n) = .ok (o', n, none) := by
  rw [unmarshalBody_eq, bodySteps_take (bodySteps_of_ok hd) le_rfl]
  rfl

/-- The errors a body ends with: `io.EOF` from a stage, or a `ColferError` at the end. -/
theorem unmarshalEnd_err {d : List UInt8} {s : Step} {o : Header} {n : Nat} {e : ColferErr}
    (hv : s.Valid d) (hd : unmarshalEnd s = .ok (o, n, some e)) : e = .eof ∨ ∃ k, e = .error k := by
  cases s with
  | next o₀ h₀ i₀ =>
    rw [unmarshalEnd] at hd
    split at hd
    · cases hd
      exact .inr ⟨_, rfl⟩
    · cases hd
  | ret o₀ n₀ err =>
    cases hd
    exact .inl (Option.some.inj hv)
  | panic => cases hd

/-- `UnmarshalBinary` reports `ColferTail(i)` only when the first `i` bytes are a whole
message: they end with the end byte `0x7f`, and `UnmarshalBinary` accepts them on their
own, giving the same header. -/
theorem unmarshalBinary_tail (w : Nat) (colferSizeMax : Int) (o : Header) (data : List UInt8)
    (o' : Header) (i : Nat) (hd : unmarshalBinary w colferSizeMax o data = .ok (o', some (.tail i))) :
    0 < i ∧ i < data.length ∧ data[i - 1]? = some 0x7f ∧
      unmarshalBinary w colferSizeMax o (data.take i) = .ok (o', none) := by
  have hu : unmarshal w colferSizeMax o data = .ok (o', i, none) ∧ i ≠ data.length := by
    unfold unmarshalBinary at hd
    split at hd
    · rename_i o₁ n₁ e hu
      cases hd
      obtain ⟨k, hk, hb⟩ := unmarshal_prefix hu (fun _ => by simp)
      rcases unmarshalEnd_err (bodySteps_valid w o _) hb with h | ⟨_, h⟩ <;> cases h
    · rename_i o₁ n₁ hu
      split at hd
      · cases hd
        exact ⟨hu, ‹_›⟩
      · cases hd
    · cases hd
  obtain ⟨k, hk, hb, hi, hik, hil, h7⟩ := unmarshal_ok hu.1
  have hbody := unmarshalBody_take hb
  rw [List.take_take, Nat.min_eq_left hik] at hbody
  refine ⟨hi, by omega, h7, ?_⟩
  have hlen : (data.take i).length = i := by simp only [List.length_take]; omega
  rw [unmarshalBinary, unmarshal, if_neg (by omega), hbody]
  simp [hlen]

/-- A `Method` with an overlong length varint, then one more byte. -/
theorem unmarshalBinary_tail_overlong :
    0 < 6 ∧ 6 < ([1, 0x82, 0, 97, 98, 0x7f, 0x7f] : List UInt8).length ∧
      ([1, 0x82, 0, 97, 98, 0x7f, 0x7f] : List UInt8)[6 - 1]? = some 0x7f ∧
      unmarshalBinary 64 (16 * 1024 * 1024) .zero (([1, 0x82, 0, 97, 98, 0x7f, 0x7f] : List UInt8).take 6) =
        .ok (⟨0, [97, 98], []⟩, none) :=
  unmarshalBinary_tail 64 (16 * 1024 * 1024) .zero [1, 0x82, 0, 97, 98, 0x7f, 0x7f] ⟨0, [97, 98], []⟩ 6 rfl

/-! ## No longer than what was read -/

/-- The bytes of `encode o` before its end byte, as `MarshalLen` counts them. -/
def bodyLen (o : Header) : Nat :=
  seqLen o.seqID.toNat + fieldLen o.method.length + fieldLen o.error.length

theorem length_encode_eq (o : Header) : (encode o).length = bodyLen o + 1 := by
  rw [length_encode, bodyLen]; omega

theorem shifts_lt_seven {x : Nat} (h : ¬ 1 <<< 49 ≤ x) : shifts x ≤ 6 :=
  shifts_le (by rw [Nat.shiftLeft_eq] at h; omega)

theorem seqLen_le_nine (x : Nat) : seqLen x ≤ 9 := by
  unfold seqLen
  split
  · exact le_rfl
  · split
    · have := shifts_lt_seven ‹_›; omega
    · omega

/-- A varint `SeqID` of `j - 1` bytes after its tag takes no more than those `j` bytes in
`MarshalTo`'s form, also when it is written as eight big-endian bytes from `2^49` on. -/
theorem seqLen_le {x j : Nat} (h64 : x < 2 ^ 64) (hj : 1 < j) (hfit : j - 1 ≤ 8 → x < 2 ^ (7 * (j - 1))) :
    seqLen x ≤ j := by
  unfold seqLen
  split
  · rename_i hbig
    by_contra hj9
    have hlt := hfit (by omega)
    have : 2 ^ (7 * (j - 1)) ≤ 2 ^ 49 := Nat.pow_le_pow_right (by decide) (by omega)
    rw [Nat.shiftLeft_eq] at hbig
    omega
  · split
    · rename_i hsmall _
      by_cases hj9 : j - 1 ≤ 8
      · have := shifts_le (k := j - 2) (by rw [show j - 2 + 1 = j - 1 by omega]; exact hfit hj9)
        omega
      · have := shifts_lt_seven hsmall; omega
    · omega

/-- A field of `m` bytes whose length varint took `k + 1` bytes for `x ≥ m` takes no more
in `MarshalTo`'s form. -/
theorem fieldLen_le {m x k : Nat} (hm : m ≤ x) (hx : x < 2 ^ (7 * (k + 1))) :
    fieldLen m ≤ m + k + 2 := by
  have := shifts_le (hm.trans_lt hx)
  unfold fieldLen; split <;> omega

/-- A stage that goes on at index `i` has read fields that `MarshalTo` writes in fewer
than `i` bytes. -/
def Step.Short : Step → Prop
  | .next o _ i => bodyLen o < i
  | _ => True

theorem Step.short_unmarshalSeq (d : List UInt8) : (unmarshalSeq .zero d).Short := by
  rcases hs : unmarshalSeq .zero d with _ | _ | ⟨o', h, i⟩
  · trivial
  · trivial
  · rcases unmarshalSeq_next_cases hs with ⟨rest, x, j, -, hv, rfl, -, rfl⟩ | ⟨-, -, rfl, -, rfl⟩ |
        ⟨-, -, -, rfl, rfl⟩
    · obtain ⟨hj, h64, hfit⟩ := seqVarint_lt (s := 0) (le_of_lt (by decide)) (by decide) hv
      have := seqLen_le h64 hj (by simpa using hfit)
      show seqLen (x % 2 ^ 64) + 0 + 0 < j + 1
      rw [Nat.mod_eq_of_lt h64]
      omega
    · have := seqLen_le_nine (beValue d 1 % 2 ^ 64)
      show seqLen (beValue d 1 % 2 ^ 64) + 0 + 0 < 10
      omega
    · show seqLen 0 + fieldLen 0 + fieldLen 0 < 1
      decide

theorem Step.short_unmarshalField {w : Nat} {tag : UInt8} {set : Header → List UInt8 → Header}
    (hset : ∀ o v, bodyLen (set o v) ≤ bodyLen o + fieldLen v.length)
    {d : List UInt8} {s : Step} (hs : s.Short) : (unmarshalField w tag set d s).Short := by
  cases s with
  | next o h i =>
    rcases hf : unmarshalField w tag set d (.next o h i) with _ | _ | ⟨o', h', i'⟩
    · trivial
    · trivial
    · have hi : bodyLen o < i := hs
      rcases unmarshalField_next_cases hf with ⟨-, rfl, -, rfl⟩ | ⟨-, x, j, hv, -, rfl, hh, rfl⟩
      · exact hs
      · obtain ⟨hij, hx⟩ := lenVarint_lt (by decide) hv
        have hlt : j + x % 2 ^ w < d.length := (List.getElem?_eq_some_iff.mp hh).1
        have hlen : ((d.drop j).take (x % 2 ^ w)).length = x % 2 ^ w := by
          simp only [List.length_take, List.length_drop]; omega
        have := hset o ((d.drop j).take (x % 2 ^ w))
        have := fieldLen_le (k := j - i - 1) (Nat.mod_le x (2 ^ w))
          (by rw [show j - i - 1 + 1 = j - i by omega]; simpa using hx)
        show bodyLen _ < _
        rw [hlen] at *
        omega
  | ret => trivial
  | panic => trivial

theorem bodyLen_setMethod (o : Header) (v : List UInt8) :
    bodyLen { o with method := v } ≤ bodyLen o + fieldLen v.length := by
  simp only [bodyLen]; omega

theorem bodyLen_setError (o : Header) (v : List UInt8) :
    bodyLen { o with error := v } ≤ bodyLen o + fieldLen v.length := by
  simp only [bodyLen]; omega

theorem bodySteps_short (w : Nat) (d : List UInt8) : (bodySteps w .zero d).Short :=
  Step.short_unmarshalField bodyLen_setError
    (Step.short_unmarshalField bodyLen_setMethod (Step.short_unmarshalSeq d))

theorem marshalBinary_unmarshal (w : Nat) (colferSizeMax : Int) (data : List UInt8) (h : Header)
    (n : Nat) (hd : unmarshal w colferSizeMax .zero data = .ok (h, n, none)) :
    (encode h).length ≤ n ∧ marshalBinary colferSizeMax h = .ok (some (encode h), none) ∧
      (colferSizeMax < 2 ^ 32 → colferSizeMax < 2 ^ (w - 1) →
        unmarshal w colferSizeMax .zero (encode h) = .ok (h, (encode h).length, none)) := by
  obtain ⟨k, hk, hb, hn, hnk, -, -⟩ := unmarshal_ok hd
  have hs := bodySteps_short w (data.take k)
  rw [bodySteps_of_ok hb] at hs
  have hle : (encode h).length ≤ n := by rw [length_encode_eq]; exact hs
  refine ⟨hle, marshalBinary_eq (by omega), fun h32 hint => ?_⟩
  have hpow : ((2 ^ (w - 1) : Nat) : Int) = 2 ^ (w - 1) := by push_cast; rfl
  have hw : 0 < w := by
    rcases w with _ | w
    · simp at hint; omega
    · omega
  rw [unmarshal, if_neg (by omega), unmarshalBody_encode hw h (by omega) (by omega)]

/-- A `Method` whose length varint has an extra byte: six bytes read, five written. -/
theorem marshalBinary_unmarshal_overlong :
    (encode ⟨0, [97, 98], []⟩).length ≤ 6 ∧
      marshalBinary (16 * 1024 * 1024) ⟨0, [97, 98], []⟩ = .ok (some (encode ⟨0, [97, 98], []⟩), none) ∧
      ((16 * 1024 * 1024 : Int) < 2 ^ 32 → (16 * 1024 * 1024 : Int) < 2 ^ (64 - 1) →
        unmarshal 64 (16 * 1024 * 1024) .zero (encode ⟨0, [97, 98], []⟩) =
          .ok (⟨0, [97, 98], []⟩, (encode ⟨0, [97, 98], []⟩).length, none)) :=
  marshalBinary_unmarshal 64 (16 * 1024 * 1024) [1, 0x82, 0, 97, 98, 0x7f] ⟨0, [97, 98], []⟩ 6 rfl

end Myrpc.Colfer

import Myrpc.Codec.Colfer.RoundTrip
import Mathlib.Data.List.GetD

/-!
# `Unmarshal` on arbitrary bytes

`Unmarshal` reads what arrives from the network, so here it runs on every byte list,
not only on what `MarshalTo` writes. Each stage is summed up by what it does when it
goes on to the next one (`Step.next`): it has read only bytes before the index it
leaves off at, and it leaves off inside the data.

* `unmarshal_append`: a message that `Unmarshal` accepts is accepted the same way, with
  the same count and header, whatever bytes follow it, for either width of `int` and
  every `ColferSizeMax`, also when the bytes that follow cross `ColferSizeMax`.
* `unmarshal_fits`: with a 64-bit `int` (and `ColferSizeMax` below `2^62`) `Unmarshal`
  never panics on any data, and a success has read `n` bytes with `0 < n ≤ len(data)`.
* `unmarshal_int32_panics`: with a 32-bit `int`, a `Method` length varint of `2^32 - 1`
  makes `to := i + int(x)` fall below `i`, and `data[i:to]` panics; with a 64-bit `int`
  the same bytes give `io.EOF`.
-/

namespace Myrpc.Colfer

/-! ## The varint loops read a prefix -/

theorem seqVarint_append (t : List UInt8) {l : List UInt8} {i shift x : Nat} {r : Nat × Nat}
    (h : seqVarint l i shift x = some r) : seqVarint (l ++ t) i shift x = some r := by
  induction l generalizing i shift x with
  | nil => cases h
  | cons b rest ih =>
    rw [List.cons_append, seqVarint]
    rw [seqVarint] at h
    by_cases hc : shift = 56 ∨ b.toNat < 0x80
    · rwa [if_pos hc] at h ⊢
    · rw [if_neg hc] at h ⊢
      exact ih h

theorem lenVarint_append (t : List UInt8) {l : List UInt8} {i shift x : Nat} {r : Nat × Nat}
    (h : lenVarint l i shift x = some r) : lenVarint (l ++ t) i shift x = some r := by
  induction l generalizing i shift x with
  | nil => cases h
  | cons b rest ih =>
    rw [List.cons_append, lenVarint]
    rw [lenVarint] at h
    by_cases hc : b.toNat < 0x80
    · rwa [if_pos hc] at h ⊢
    · rw [if_neg hc] at h ⊢
      exact ih h

theorem beValue_append {d : List UInt8} (t : List UInt8) (h : 9 ≤ d.length) :
    beValue (d ++ t) 1 = beValue d 1 := by
  simp (disch := omega) only [beValue, List.getD_append]

/-! ## The stages read a prefix -/

/-- Every stage goes on only from a stage that went on. -/
theorem unmarshalField_next_inv {w : Nat} {tag : UInt8} {set : Header → List UInt8 → Header}
    {d : List UInt8} {s : Step} {o : Header} {h : UInt8} {i : Nat}
    (hs : unmarshalField w tag set d s = .next o h i) : ∃ o₀ h₀ i₀, s = .next o₀ h₀ i₀ := by
  cases s with
  | next o₀ h₀ i₀ => exact ⟨o₀, h₀, i₀, rfl⟩
  | ret => cases hs
  | panic => cases hs

/-- A stage returns without an error only when the stage before it did. -/
theorem unmarshalField_ret_none {w : Nat} {tag : UInt8} {set : Header → List UInt8 → Header}
    {d : List UInt8} {s : Step} {o : Header} {n : Nat}
    (hs : unmarshalField w tag set d s = .ret o n none) : s = .ret o n none := by
  cases s with
  | next o₀ h₀ i₀ =>
    rw [unmarshalField] at hs
    by_cases htag : h₀ = tag
    · rw [if_pos htag] at hs
      rcases hv : lenVarint (d.drop i₀) i₀ 0 0 with _ | ⟨x, j⟩
      · rw [hv] at hs
        cases hs
      · rw [hv] at hs
        dsimp only at hs
        split at hs
        · cases hs
        · split at hs <;> cases hs
    · rw [if_neg htag] at hs
      cases hs
  | ret => exact hs
  | panic => cases hs

theorem unmarshalSeq_ne_ret_none (o : Header) (d : List UInt8) {o' : Header} {n : Nat} :
    unmarshalSeq o d ≠ .ret o' n none := by
  unfold unmarshalSeq
  repeat' split
  all_goals simp

theorem unmarshalEnd_eq_ok_none {s : Step} {o : Header} {n : Nat}
    (h : unmarshalEnd s = .ok (o, n, none)) : s = .next o 0x7f n ∨ s = .ret o n none := by
  cases s with
  | next o₀ h₀ i₀ =>
    rw [unmarshalEnd] at h
    by_cases h7 : h₀ = 0x7f
    · rw [if_neg (not_not.mpr h7)] at h
      cases h
      exact .inl (by rw [h7])
    · rw [if_pos h7] at h
      cases h
  | ret o₀ n₀ err =>
    cases h
    exact .inr rfl
  | panic => cases h

theorem unmarshalSeq_append (o : Header) {d : List UInt8} (t : List UInt8) {o' : Header} {h : UInt8}
    {i : Nat} (hs : unmarshalSeq o d = .next o' h i) : unmarshalSeq o (d ++ t) = .next o' h i := by
  cases d with
  | nil => cases hs
  | cons b rest =>
    rw [List.cons_append, unmarshalSeq]
    rw [unmarshalSeq] at hs
    by_cases h0 : b = 0
    · rw [if_pos h0] at hs ⊢
      rcases hv : seqVarint rest 1 0 0 with _ | ⟨x, j⟩
      · rw [hv] at hs
        cases hs
      · rw [hv] at hs
        rw [seqVarint_append t hv]
        dsimp only at hs ⊢
        rcases hj : (b :: rest)[j]? with _ | c
        · rw [hj] at hs
          cases hs
        · rw [hj] at hs
          have hlt : j < (b :: rest).length := (List.getElem?_eq_some_iff.mp hj).1
          rwa [← List.cons_append, List.getElem?_append_left hlt, hj]
    · rw [if_neg h0] at hs ⊢
      by_cases h8 : b = 0x80
      · rw [if_pos h8] at hs ⊢
        split at hs
        · cases hs
        · rename_i hlen
          simp only [List.length_cons] at hlen
          rw [if_neg (by simp; omega), ← List.cons_append, beValue_append t (by simp; omega),
            List.getD_append _ _ _ _ (by simp; omega)]
          exact hs
      · rw [if_neg h8] at hs ⊢
        exact hs

theorem unmarshalField_append (w : Nat) (tag : UInt8) (set : Header → List UInt8 → Header)
    {d : List UInt8} (t : List UInt8) {s : Step} {o : Header} {h : UInt8} {i : Nat}
    (hs : unmarshalField w tag set d s = .next o h i) :
    unmarshalField w tag set (d ++ t) s = .next o h i := by
  obtain ⟨o₀, h₀, i₀, rfl⟩ := unmarshalField_next_inv hs
  rw [unmarshalField] at hs ⊢
  by_cases htag : h₀ = tag
  · rw [if_pos htag] at hs ⊢
    rcases hv : lenVarint (d.drop i₀) i₀ 0 0 with _ | ⟨x, j⟩
    · rw [hv] at hs
      cases hs
    have hi₀ : i₀ ≤ d.length := by
      by_contra hlt
      rw [List.drop_of_length_le (by omega)] at hv
      cases hv
    rw [hv] at hs
    rw [List.drop_append_of_le_length hi₀, lenVarint_append t hv]
    dsimp only at hs ⊢
    split at hs
    · cases hs
    · rename_i hstop
      split at hs
      · cases hs
      · rename_i hj
        have hlt : (goInt w (↑j + goInt w ↑x)).toNat < d.length := by omega
        rw [if_neg (by simp; omega), if_neg hj, List.drop_append_of_le_length (by omega),
          List.take_append_of_le_length (by simp; omega), List.getD_append _ _ _ _ hlt]
        exact hs
  · rw [if_neg htag] at hs ⊢
    exact hs

/-- A message `Unmarshal` accepts within the size limit is read the same way whatever
follows it. -/
theorem unmarshalBody_append (w : Nat) (o : Header) (t : List UInt8) {d : List UInt8} {o' : Header}
    {n : Nat} (hd : unmarshalBody w o d = .ok (o', n, none)) :
    unmarshalBody w o (d ++ t) = .ok (o', n, none) := by
  unfold unmarshalBody at hd ⊢
  generalize hs₁ : unmarshalSeq o d = s₁ at hd
  generalize hs₂ : unmarshalField w 1 (fun o s => { o with method := s }) d s₁ = s₂ at hd
  generalize hs₃ : unmarshalField w 2 (fun o s => { o with error := s }) d s₂ = s₃ at hd
  rcases unmarshalEnd_eq_ok_none hd with rfl | rfl
  · obtain ⟨_, _, _, rfl⟩ := unmarshalField_next_inv hs₃
    obtain ⟨_, _, _, rfl⟩ := unmarshalField_next_inv hs₂
    rw [unmarshalSeq_append o t hs₁, unmarshalField_append w 1 _ t hs₂, unmarshalField_append w 2 _ t hs₃]
    exact hd
  · exact absurd (hs₁.trans (unmarshalField_ret_none (hs₂.trans (unmarshalField_ret_none hs₃))))
      (unmarshalSeq_ne_ret_none o d)

/-- For every message `d` that `Unmarshal` into a zero header accepts, reading `n` bytes
into `h`, and every tail `t`, `Unmarshal` of `d ++ t` accepts it the same way: for either
width of `int` and every `ColferSizeMax`, also when `d ++ t` is longer than
`ColferSizeMax`. -/
theorem unmarshal_append (w : Nat) (colferSizeMax : Int) (d t : List UInt8) (h : Header) (n : Nat)
    (hd : unmarshal w colferSizeMax .zero d = .ok (h, n, none)) :
    unmarshal w colferSizeMax .zero (d ++ t) = .ok (h, n, none) := by
  unfold unmarshal at hd ⊢
  rw [List.length_append]
  by_cases hM : colferSizeMax < d.length
  · rw [if_pos hM] at hd
    rw [if_pos (by omega)]
    split at hd
    · cases hd
    · rename_i hneg
      rw [if_neg hneg, List.take_append_of_le_length (by omega)]
      exact hd
  · rw [if_neg hM] at hd
    split
    · rw [if_neg (by omega), List.take_append_eq_append_take, List.take_of_length_le (by omega),
        unmarshalBody_append w .zero _ hd]
    · exact unmarshalBody_append w .zero t hd

/-- The message `[0x7f]`, the zero header, read with trailing bytes under a limit that
the whole crosses. -/
theorem unmarshal_append_end :
    unmarshal 32 2 .zero [0x7f] = .ok (.zero, 1, none) ∧
      unmarshal 32 2 .zero ([0x7f] ++ [1, 2, 3]) = .ok (.zero, 1, none) :=
  ⟨rfl, unmarshal_append 32 2 [0x7f] [1, 2, 3] .zero 1 rfl⟩

/-! ## With a 64-bit `int` -/

/-- What a stage may leave on data of length `len`: an error, a count `n` with
`0 < n ≤ len` when there is none, or the next header byte at an index inside the data;
never a panic. -/
def Step.Fits (len : Nat) : Step → Prop
  | .next _ _ i => 0 < i ∧ i ≤ len
  | .ret _ n err => err = none → 0 < n ∧ n ≤ len
  | .panic _ => False

/-- A length varint is a `uint32` and the loop stops inside the bytes it was given. -/
theorem lenVarint_bound {l : List UInt8} {i shift x y j : Nat} (hx : x < 2 ^ 32)
    (h : lenVarint l i shift x = some (y, j)) : y < 2 ^ 32 ∧ j ≤ i + l.length := by
  induction l generalizing i shift x with
  | nil => cases h
  | cons b rest ih =>
    rw [lenVarint] at h
    have hor : ∀ z, x ||| z % 2 ^ 32 < 2 ^ 32 := fun z => Nat.or_lt_two_pow hx (Nat.mod_lt _ (by decide))
    split at h
    · cases h
      exact ⟨hor _, by simp⟩
    · obtain ⟨hy, hj⟩ := ih (hor _) h
      exact ⟨hy, by simp; omega⟩

theorem unmarshalSeq_fits (o : Header) (d : List UInt8) : (unmarshalSeq o d).Fits d.length := by
  unfold unmarshalSeq
  split
  · simp [Step.Fits]
  · split
    · split
      · simp [Step.Fits]
      · split
        · simp [Step.Fits]
        · rename_i hh
          have := (List.getElem?_eq_some_iff.mp hh).1
          simp only [Step.Fits]
          omega
    · split
      · split
        · simp [Step.Fits]
        · simp only [Step.Fits]
          omega
      · simp [Step.Fits]

/-- With a 64-bit `int`, `to := i + int(x)` never wraps on data shorter than `2^62`, so a
field stage never panics and leaves off inside the data. -/
theorem unmarshalField_fits (tag : UInt8) (set : Header → List UInt8 → Header) {d : List UInt8}
    (hd : d.length < 2 ^ 62) {s : Step} (hs : s.Fits d.length) :
    (unmarshalField 64 tag set d s).Fits d.length := by
  cases s with
  | next o h i =>
    rw [unmarshalField]
    by_cases htag : h = tag
    · rw [if_pos htag]
      rcases hv : lenVarint (d.drop i) i 0 0 with _ | ⟨x, j⟩
      · simp [Step.Fits]
      · obtain ⟨hx, hj⟩ := lenVarint_bound (by decide) hv
        have hi : i ≤ d.length := hs.2
        simp only [List.length_drop] at hj
        have hstop : goInt 64 (↑j + goInt 64 ↑x) = ↑(j + x) := by
          rw [goInt_natCast (by decide) (show x < 2 ^ (64 - 1) by omega), ← Int.natCast_add,
            goInt_natCast (by decide) (by omega)]
        dsimp only
        rw [hstop]
        split
        · simp [Step.Fits]
        · rw [if_neg (by omega)]
          simp only [Step.Fits, Int.toNat_ofNat]
          omega
    · rw [if_neg htag]
      exact hs
  | ret => exact hs
  | panic => exact hs

theorem unmarshalEnd_fits {len : Nat} {s : Step} (hs : s.Fits len) :
    ∃ o n err, unmarshalEnd s = .ok (o, n, err) ∧ (err = none → 0 < n ∧ n ≤ len) := by
  cases s with
  | next o h i =>
    rw [unmarshalEnd]
    split
    · exact ⟨_, _, _, rfl, fun h => by cases h⟩
    · exact ⟨_, _, _, rfl, fun _ => hs⟩
  | ret o n err => exact ⟨o, n, err, rfl, hs⟩
  | panic => exact hs.elim

theorem unmarshalBody_fits (o : Header) {d : List UInt8} (hd : d.length < 2 ^ 62) :
    ∃ o' n err, unmarshalBody 64 o d = .ok (o', n, err) ∧ (err = none → 0 < n ∧ n ≤ d.length) :=
  unmarshalEnd_fits (unmarshalField_fits 2 _ hd (unmarshalField_fits 1 _ hd (unmarshalSeq_fits o d)))

/-- With a 64-bit `int` and a `ColferSizeMax` in `[0, 2^62)` (the default is `2^24`),
`Unmarshal` never panics, whatever the data, and when it returns no error it has read
`n` bytes with `0 < n ≤ len(data)`. -/
theorem unmarshal_fits (colferSizeMax : Int) (h0 : 0 ≤ colferSizeMax) (hmax : colferSizeMax < 2 ^ 62)
    (o : Header) (data : List UInt8) :
    ∃ o' n err, unmarshal 64 colferSizeMax o data = .ok (o', n, err) ∧
      (err = none → 0 < n ∧ n ≤ data.length) := by
  unfold unmarshal
  split
  · rw [if_neg (by omega)]
    obtain ⟨o', n, err, hb, hn⟩ := unmarshalBody_fits o
      (show (data.take colferSizeMax.toNat).length < 2 ^ 62 by simp; omega)
    rw [hb]
    rcases err with _ | e
    · exact ⟨o', n, none, rfl, fun _ => ⟨(hn rfl).1, (hn rfl).2.trans (List.length_take_le' _ _)⟩⟩
    · cases e <;> exact ⟨_, _, _, rfl, fun h => by cases h⟩
  · exact unmarshalBody_fits o (by omega)

/-- At the default `ColferSizeMax`, the bytes that panic with a 32-bit `int` below. -/
theorem unmarshal_fits_lengthBytes :
    (0 : Int) ≤ 16 * 1024 * 1024 ∧ (16 * 1024 * 1024 : Int) < 2 ^ 62 ∧
      ∃ o' n err, unmarshal 64 (16 * 1024 * 1024) .zero [1, 0xff, 0xff, 0xff, 0xff, 0x0f] =
        .ok (o', n, err) ∧ (err = none → 0 < n ∧ n ≤ [1, 0xff, 0xff, 0xff, 0xff, 0x0f].length) :=
  ⟨by decide, by decide, unmarshal_fits _ (by decide) (by decide) .zero _⟩

/-! ## A length that wraps a 32-bit `int` -/

/-- The bytes `01 ff ff ff ff 0f`: tag `1` and a `Method` length of `2^32 - 1`. With a
32-bit `int`, `int(x)` is `-1`, so `to = 5` passes `to >= len(data)` and `data[6:5]`
panics; with a 64-bit `int`, `to` lies past the end and the result is `io.EOF`. -/
theorem unmarshal_int32_panics :
    unmarshal 32 (16 * 1024 * 1024) .zero [1, 0xff, 0xff, 0xff, 0xff, 0x0f] =
        .error "slice bounds out of range" ∧
      unmarshal 64 (16 * 1024 * 1024) .zero [1, 0xff, 0xff, 0xff, 0xff, 0x0f] = .ok (.zero, 0, some .eof) :=
  ⟨rfl, rfl⟩

end Myrpc.Colfer

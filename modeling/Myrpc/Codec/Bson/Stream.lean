import Myrpc.Codec.Bson

/-!
# Reading a stream of BSON documents

A connection delivers bytes in pieces that need not match the documents written to it:
one `Read` may bring the end of one document and the start of the next. Here the stream
is a list of BSON documents, delivered in any non-empty pieces, and `decodeN` is the
sequence of `Decode` calls a codec makes on it (a server's `ReadRequestHeader` and
`ReadRequestBody`, a client's `ReadResponseHeader` and `ReadResponseBody`).

`Rest rs pre rs'` says that `rs'` is what is left of `rs` once the bytes `pre` were read:
the same bytes, still split where `rs` was. `Read`, `io.ReadFull` and `Decode` each leave
such a rest, whatever they return.

* `decode_rest`: `Decode` reads a prefix and leaves the rest of the stream as it was split.
* `decodeN_frames`: successive `Decode` calls return, in order, the unmarshalled documents
  of the stream, for every split into non-empty pieces in which no piece ends strictly
  inside a document's four-byte length prefix. A piece that ends there makes `Decode`
  report a corrupted stream.
-/

namespace Myrpc.Bson

/-! ## Where the pieces end -/

/-- The offsets into a stream's bytes at which its pieces end. -/
def cuts : Stream → List Nat
  | [] => []
  | c :: rest => c.length :: (cuts rest).map (c.length + ·)

theorem mem_cuts_cons {c : List UInt8} {rest : Stream} {b : Nat} :
    b ∈ cuts (c :: rest) ↔ b = c.length ∨ ∃ x ∈ cuts rest, c.length + x = b := by
  simp [cuts]

/-- `rs'` is what a connection holds after the bytes `pre` were read from `rs`: the bytes
after `pre`, in non-empty pieces that end where those of `rs` end. -/
structure Rest (rs : Stream) (pre : List UInt8) (rs' : Stream) : Prop where
  bytes : rs.flatten = pre ++ rs'.flatten
  nonempty : ∀ c ∈ rs', c ≠ []
  cut : ∀ b ∈ cuts rs', pre.length + b ∈ cuts rs

theorem Rest.refl {rs : Stream} (hne : ∀ c ∈ rs, c ≠ []) : Rest rs [] rs :=
  ⟨rfl, hne, fun b hb => by simpa using hb⟩

theorem Rest.cons (c : List UInt8) {rest rs' : Stream} {pre : List UInt8} (h : Rest rest pre rs') :
    Rest (c :: rest) (c ++ pre) rs' :=
  ⟨by rw [List.flatten_cons, h.bytes, List.append_assoc], h.nonempty, fun b hb => by
    rw [List.length_append, Nat.add_assoc]
    exact mem_cuts_cons.mpr (.inr ⟨_, h.cut b hb, rfl⟩)⟩

theorem Rest.split {c : List UInt8} {rest : Stream} {k : Nat} (hne : ∀ c ∈ rest, c ≠ [])
    (hk : k < c.length) : Rest (c :: rest) (c.take k) (c.drop k :: rest) := by
  refine ⟨by rw [List.flatten_cons, List.flatten_cons, ← List.append_assoc, List.take_append_drop], ?_,
    fun b hb => ?_⟩
  · intro c' hc'
    rcases List.mem_cons.mp hc' with rfl | hc'
    · simpa using hk
    · exact hne c' hc'
  · rw [List.length_take, Nat.min_eq_left hk.le]
    rcases mem_cuts_cons.mp hb with rfl | ⟨x, hx, rfl⟩
    · exact mem_cuts_cons.mpr (.inl (by simp; omega))
    · exact mem_cuts_cons.mpr (.inr ⟨x, hx, by simp; omega⟩)

theorem Rest.trans {rs rs' rs'' : Stream} {pre pre' : List UInt8} (h : Rest rs pre rs')
    (h' : Rest rs' pre' rs'') : Rest rs (pre ++ pre') rs'' :=
  ⟨by rw [h.bytes, h'.bytes, List.append_assoc], h'.nonempty, fun b hb => by
    rw [List.length_append, Nat.add_assoc]; exact h.cut _ (h'.cut b hb)⟩

theorem read_rest {rs : Stream} (hne : ∀ c ∈ rs, c ≠ []) (k : Nat) :
    Rest rs (read rs k).1 (read rs k).2.1 := by
  cases rs with
  | nil => exact Rest.refl hne
  | cons c rest =>
    have hrest : ∀ c ∈ rest, c ≠ [] := fun c' hc' => hne c' (List.mem_cons_of_mem _ hc')
    rw [read]
    split
    · simpa using (Rest.refl hrest).cons c
    · exact Rest.split hrest (by omega)

theorem readFull_rest (k : Nat) {rs : Stream} (hne : ∀ c ∈ rs, c ≠ []) :
    Rest rs (readFull k rs).1 (readFull k rs).2.1 := by
  induction rs generalizing k with
  | nil => exact Rest.refl hne
  | cons c rest ih =>
    have hrest : ∀ c ∈ rest, c ≠ [] := fun c' hc' => hne c' (List.mem_cons_of_mem _ hc')
    unfold readFull
    split
    · exact Rest.refl hne
    · split
      · split
        · exact Rest.split hrest ‹_›
        · have : k = c.length := by omega
          subst this
          simpa using (Rest.refl hrest).cons c
      · exact (ih (k - c.length) hrest).cons c

/-! ## What `Decode` leaves -/

/-- `Decode` reads a prefix of the stream and leaves the rest split as it was, whatever it
returns. -/
theorem decode_rest {α : Type} (unmarshal : List UInt8 → Except String α) {rs rs' : Stream}
    {r : Except String α} (hne : ∀ c ∈ rs, c ≠ []) (hd : decode unmarshal rs = .ok (r, rs')) :
    ∃ pre, Rest rs pre rs' := by
  have h1 := read_rest hne 4
  unfold decode at hd
  generalize read rs 4 = R at h1 hd
  obtain ⟨lbuf, rs1, err⟩ := R
  dsimp only at h1 hd
  split at hd
  · cases hd
    exact ⟨_, h1⟩
  · split at hd
    · cases hd
      exact ⟨_, h1⟩
    · split at hd
      · cases hd
      · have h2 := readFull_rest (lengthOf lbuf - 4) h1.nonempty
        generalize readFull (lengthOf lbuf - 4) rs1 = B at h2 hd
        obtain ⟨body, rs2, err2⟩ := B
        dsimp only at h2 hd
        refine ⟨lbuf ++ body, ?_⟩
        split at hd
        · cases hd
          exact h1.trans h2
        · split at hd <;> (cases hd; exact h1.trans h2)

/-! ## A stream of documents -/

/-- A BSON document as `bson.Marshal` writes it: its first four bytes give its length,
little-endian. -/
def Frame (d : List UInt8) : Prop := 4 ≤ d.length ∧ lengthOf (d.take 4) = d.length

instance (d : List UInt8) : Decidable (Frame d) :=
  inferInstanceAs (Decidable (4 ≤ d.length ∧ lengthOf (d.take 4) = d.length))

/-- `Decode` returns the first document of a stream whose first piece holds the
document's whole length prefix, and leaves the rest split as it was. -/
theorem decode_next {α : Type} (unmarshal : List UInt8 → Except String α) {d tail : List UInt8}
    {rs : Stream} (hd : Frame d) (hs : rs.flatten = d ++ tail) (hne : ∀ c ∈ rs, c ≠ [])
    (hcut : ∀ b ∈ cuts rs, b ≤ 0 ∨ 4 ≤ b) :
    ∃ rs', decode unmarshal rs = .ok (unmarshal d, rs') ∧ Rest rs d rs' := by
  cases rs with
  | nil =>
    have := congrArg List.length hs
    simp at this
    have := hd.1
    omega
  | cons c rest =>
    have hc : 4 ≤ c.length := by
      have := List.length_pos.mpr (hne c (List.mem_cons_self _ _))
      rcases hcut _ (mem_cuts_cons.mpr (.inl rfl)) with h | h <;> omega
    obtain ⟨rs', hdec, hflat⟩ := decode_spec unmarshal hc hs hd.1 hd.2
    obtain ⟨pre, hrest⟩ := decode_rest unmarshal hne hdec
    have hpre : pre = d := by
      have := hrest.bytes
      rw [hs, hflat] at this
      exact (List.append_cancel_right this).symm
    exact ⟨rs', hdec, hpre ▸ hrest⟩

/-- The offsets at which successive documents start in their concatenation. -/
def starts : List (List UInt8) → List Nat
  | [] => []
  | d :: ds => 0 :: (starts ds).map (d.length + ·)

/-- `n` successive `Decode` calls on one connection: their results in order, and what is
left of the stream. -/
def decodeN {α : Type} (unmarshal : List UInt8 → Except String α) :
    Nat → Stream → Except String (List (Except String α) × Stream)
  | 0, rs => .ok ([], rs)
  | n + 1, rs => do
    let (r, rs) ← decode unmarshal rs
    let (rs', rest) ← decodeN unmarshal n rs
    pure (r :: rs', rest)

/-- Successive `Decode` calls read back, in order, every document of a stream of BSON
documents, whatever the pieces the connection delivers, as long as no piece ends inside a
document's four-byte length prefix; what is left is the rest of the stream, split as it
was. -/
theorem decodeN_frames {α : Type} (unmarshal : List UInt8 → Except String α)
    (docs : List (List UInt8)) (tail : List UInt8) (rs : Stream) (hdocs : ∀ d ∈ docs, Frame d)
    (hs : rs.flatten = docs.flatten ++ tail) (hne : ∀ c ∈ rs, c ≠ [])
    (hcut : ∀ s ∈ starts docs, ∀ b ∈ cuts rs, b ≤ s ∨ s + 4 ≤ b) :
    ∃ rs', decodeN unmarshal docs.length rs = .ok (docs.map unmarshal, rs') ∧
      Rest rs docs.flatten rs' := by
  induction docs generalizing rs with
  | nil => exact ⟨rs, rfl, Rest.refl hne⟩
  | cons d ds ih =>
    rw [List.flatten_cons, List.append_assoc] at hs
    obtain ⟨rs1, hdec, hr1⟩ := decode_next unmarshal (hdocs d (List.mem_cons_self _ _)) hs hne
      (fun b hb => by simpa using hcut 0 (by simp [starts]) b hb)
    have hs1 : rs1.flatten = ds.flatten ++ tail := by
      have := hr1.bytes
      rw [hs] at this
      exact (List.append_cancel_left this).symm
    obtain ⟨rs', hN, hr'⟩ := ih rs1 (fun d' hd' => hdocs d' (List.mem_cons_of_mem _ hd')) hs1
      hr1.nonempty (fun s hsm b hb => by
        have := hcut (d.length + s) (by simp [starts, hsm]) (d.length + b) (hr1.cut b hb)
        omega)
    refine ⟨rs', ?_, by simpa using hr1.trans hr'⟩
    simp only [List.length_cons, decodeN, hdec, bind, Except.bind, hN]
    rfl

/-- Two empty documents delivered as `05 00 00 00`, `00 05 00 00 00`, `00`. -/
theorem decodeN_frames_empty :
    (∀ d ∈ [emptyDoc, emptyDoc], Frame d) ∧
      List.flatten [[5, 0, 0, 0], [0, 5, 0, 0, 0], [0]] = List.flatten [emptyDoc, emptyDoc] ++ [] ∧
      (∀ c ∈ [[5, 0, 0, 0], [0, 5, 0, 0, 0], [0]], c ≠ ([] : List UInt8)) ∧
      (∀ s ∈ starts [emptyDoc, emptyDoc], ∀ b ∈ cuts [[5, 0, 0, 0], [0, 5, 0, 0, 0], [0]],
        b ≤ s ∨ s + 4 ≤ b) ∧
      ∃ rs', decodeN unmarshalEmpty [emptyDoc, emptyDoc].length [[5, 0, 0, 0], [0, 5, 0, 0, 0], [0]] =
          .ok ([emptyDoc, emptyDoc].map unmarshalEmpty, rs') ∧
        Rest [[5, 0, 0, 0], [0, 5, 0, 0, 0], [0]] (List.flatten [emptyDoc, emptyDoc]) rs' :=
  have h1 : ∀ d ∈ [emptyDoc, emptyDoc], Frame d := by decide
  have h2 : List.flatten [[5, 0, 0, 0], [0, 5, 0, 0, 0], [0]] = List.flatten [emptyDoc, emptyDoc] ++ [] := by decide
  have h3 : ∀ c ∈ [[5, 0, 0, 0], [0, 5, 0, 0, 0], [0]], c ≠ ([] : List UInt8) := by decide
  have h4 : ∀ s ∈ starts [emptyDoc, emptyDoc], ∀ b ∈ cuts [[5, 0, 0, 0], [0, 5, 0, 0, 0], [0]],
      b ≤ s ∨ s + 4 ≤ b := by decide
  ⟨h1, h2, h3, h4, decodeN_frames unmarshalEmpty _ [] _ h1 h2 h3 h4⟩

end Myrpc.Bson

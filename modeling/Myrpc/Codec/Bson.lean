import Mathlib.Data.List.Basic

/-!
# The BSON codec's framing (`codec/bson`)

`bsonEncoder.Encode` writes `bson.Marshal(v)`, a document whose first four bytes are
its own length, little-endian. `bsonDecoder.Decode` reads those four bytes with one
`Read`, then the rest of the document with `io.ReadFull`, and unmarshals it.

A `Stream` is what the connection still holds, split into what successive `Read`
calls return: a `Read` into a buffer of `k` bytes returns at most `k` bytes, all from
the next piece. `bson.Marshal` and `bson.Unmarshal` are not in the repository and are
arguments; the writer is taken to accept every byte it is given. Go's `int` is taken
64 bits wide, so the length read is never negative.

* `readFull_spec`: `io.ReadFull` returns exactly the bytes asked for, however the stream
  is split.
* `decode_spec`: so `Decode` returns the next document whenever its first `Read` brings
  the whole length prefix.
* `decode_split_prefix`: when that `Read` brings fewer than four bytes, `Decode` fails
  with `Corrupted BSON stream` on a document it reads when the prefix comes whole or the
  rest is split.
* `decode_panics_of_short_length`, `decode_short_length_panics`: a prefix that gives a
  length below 4 makes `Decode` panic at `buf[0:4]`.
-/

namespace Myrpc.Bson

/-! ## Reading -/

/-- The bytes a connection still holds, in the pieces successive `Read` calls return. -/
abbrev Stream := List (List UInt8)

/-- `r.Read(p)` with `len(p) = k`: up to `k` bytes of the next piece, or `io.EOF` at
the end. -/
def read : Stream → Nat → List UInt8 × Stream × Option String
  | [], _ => ([], [], some "EOF")
  | c :: rest, k => if c.length ≤ k then (c, rest, none) else (c.take k, c.drop k :: rest, none)

/-- `io.ReadFull(r, buf)` with `len(buf) = k`: `Read`s until `k` bytes are in. The end
of the stream gives `EOF` when nothing was read and `unexpected EOF` otherwise. -/
def readFull (k : Nat) : Stream → List UInt8 × Stream × Option String
  | [] => ([], [], if k = 0 then none else some "EOF")
  | c :: rest =>
    if k = 0 then ([], c :: rest, none)
    else if k ≤ c.length then (c.take k, if k < c.length then c.drop k :: rest else rest, none)
    else
      let r := readFull (k - c.length) rest
      (c ++ r.1, r.2.1, r.2.2.map fun e => if e = "EOF" ∧ c ≠ [] then "unexpected EOF" else e)

/-- The little-endian `int` of the four bytes `lbuf`. -/
def lengthOf (lbuf : List UInt8) : Nat :=
  (lbuf.getD 0 0).toNat ||| (lbuf.getD 1 0).toNat <<< 8 ||| (lbuf.getD 2 0).toNat <<< 16 |||
    (lbuf.getD 3 0).toNat <<< 24

/-- `d.Decode(pv)`: what it returns and the stream after it; `.error` is a panic (a
length below 4 makes `buf[0:4]` go out of range). -/
def decode {α : Type} (unmarshal : List UInt8 → Except String α) (rs : Stream) :
    Except String (Except String α × Stream) :=
  let (lbuf, rs, err) := read rs 4
  if lbuf.length ≠ 4 then .ok (.error ("Corrupted BSON stream: could only read " ++ toString lbuf.length), rs)
  else match err with
  | some e => .ok (.error e, rs)
  | none =>
    let length := lengthOf lbuf
    if length < 4 then .error "runtime error: slice bounds out of range [:4]"
    else
      let (body, rs, err) := readFull (length - 4) rs
      match err with
      | some e => .ok (.error e, rs)
      | none =>
        if body.length + 4 ≠ length then
          .ok (.error ("Expected " ++ toString length ++ " bytes, read " ++ toString body.length), rs)
        else .ok (unmarshal (lbuf ++ body), rs)

/-! ## Writing -/

/-- `e.Encode(v)`: the bytes of `bson.Marshal(v)`, all taken by the writer. -/
def encode {α : Type} (marshal : α → Except String (List UInt8)) (v : α) : Except String (List UInt8) :=
  marshal v

/-- `cc.WriteRequest(req, v)` of the client codec: the header's document, then the
body's. -/
def writeRequest {α β : Type} (marshalReq : α → Except String (List UInt8))
    (marshalBody : β → Except String (List UInt8)) (req : α) (v : β) : Except String (List UInt8) := do
  let h ← encode marshalReq req
  let b ← encode marshalBody v
  pure (h ++ b)

/-! ## Reading what was asked for -/

/-- `io.ReadFull` returns exactly the first `k` bytes of the stream, and leaves the rest,
however the stream is split. -/
theorem readFull_spec (rs : Stream) :
    ∀ k, k ≤ rs.flatten.length →
      (readFull k rs).1 = rs.flatten.take k ∧ (readFull k rs).2.2 = none ∧
        (readFull k rs).2.1.flatten = rs.flatten.drop k := by
  induction rs with
  | nil => intro k hk; simp_all [readFull]
  | cons c rest ih =>
    intro k hk
    simp only [List.flatten_cons, List.length_append] at hk ⊢
    by_cases hk0 : k = 0
    · simp [readFull, hk0]
    by_cases hkc : k ≤ c.length
    · refine ⟨by simp [readFull, hk0, hkc, List.take_append_of_le_length hkc], by simp [readFull, hk0, hkc], ?_⟩
      simp only [readFull, hk0, hkc, if_false, if_true]
      split
      · simp [List.drop_append_of_le_length hkc]
      · have : k = c.length := by omega
        subst this
        simp
    · obtain ⟨h1, h2, h3⟩ := ih (k - c.length) (by omega)
      simp only [readFull, hk0, hkc, if_false, h2, Option.map_none]
      refine ⟨?_, rfl, ?_⟩
      · rw [h1, List.take_append_eq_append_take, List.take_of_length_le (show c.length ≤ k by omega)]
      · rw [h3, List.drop_append_eq_append_drop, List.drop_of_length_le (show c.length ≤ k by omega), List.nil_append]

/-- A `Read` of at most the next piece's length returns that many of its bytes. -/
theorem read_spec {c : List UInt8} {k : Nat} (rest : Stream) (hk : k ≤ c.length) :
    (read (c :: rest) k).1 = c.take k ∧ (read (c :: rest) k).2.2 = none ∧
      (read (c :: rest) k).2.1.flatten = (c :: rest).flatten.drop k := by
  simp only [read, List.flatten_cons]
  split
  · have : c.length = k := by omega
    subst this
    simp
  · simp [List.drop_append_of_le_length hk]

/-- `Decode` returns the next document `d` whole, and leaves what follows it, whenever
the first piece holds the four-byte prefix giving `d`'s length. -/
theorem decode_spec {α : Type} (unmarshal : List UInt8 → Except String α) {c : List UInt8}
    {rest : Stream} {d tail : List UInt8} (hc : 4 ≤ c.length) (hs : (c :: rest).flatten = d ++ tail)
    (h4 : 4 ≤ d.length) (hlen : lengthOf (d.take 4) = d.length) :
    ∃ rs, decode unmarshal (c :: rest) = .ok (unmarshal d, rs) ∧ rs.flatten = tail := by
  obtain ⟨hr1, hr2, hr3⟩ := read_spec rest hc
  have hpre : c.take 4 = d.take 4 := by
    have := congrArg (List.take 4) hs
    rwa [List.flatten_cons, List.take_append_of_le_length hc, List.take_append_of_le_length h4] at this
  have hrest : (read (c :: rest) 4).2.1.flatten = d.drop 4 ++ tail := by
    rw [hr3, hs, List.drop_append_of_le_length h4]
  obtain ⟨h1, h2, h3⟩ := readFull_spec (read (c :: rest) 4).2.1 (d.length - 4) (by simp [hrest])
  rw [hrest] at h1 h3
  refine ⟨(readFull (d.length - 4) (read (c :: rest) 4).2.1).2.1, ?_, by
    rw [h3, List.drop_append_of_le_length (by simp), List.drop_of_length_le (by simp), List.nil_append]⟩
  generalize hR : read (c :: rest) 4 = R at hr1 hr2 h1 h2
  obtain ⟨lbuf, rs1, err⟩ := R
  dsimp only at hr1 hr2 h1 h2
  subst hr1 hr2
  have hl : (d.take 4).length = 4 := by simp; omega
  have hb : (d.drop 4 ++ tail).take (d.length - 4) = d.drop 4 := by
    rw [List.take_append_of_le_length (by simp), List.take_of_length_le (by simp)]
  have hbl : (d.drop 4).length + 4 = d.length := by simp; omega
  simp only [decode, hR, hpre, hl, hlen, h1, h2, hb, hbl, List.take_append_drop, ne_eq, not_true_eq_false,
    if_false, show ¬ d.length < 4 by omega]

/-! ## A prefix split over two reads -/

/-- The document `bson.Marshal` writes for an empty struct: its length, 5, and the
terminating zero. -/
def emptyDoc : List UInt8 := [5, 0, 0, 0, 0]

/-- `bson.Unmarshal` into an empty struct, on the documents used here. -/
def unmarshalEmpty (d : List UInt8) : Except String Unit :=
  if d = emptyDoc then .ok () else .error "Document is corrupted"

/-- The empty document decodes when the first `Read` brings its prefix, also with the
rest in a later piece; when the first `Read` brings one byte, `Decode` reports a
corrupted stream and leaves the other four bytes to be read as the next document. -/
theorem decode_split_prefix :
    decode unmarshalEmpty [emptyDoc] = .ok (.ok (), []) ∧
      decode unmarshalEmpty [[5, 0, 0, 0], [0]] = .ok (.ok (), []) ∧
      decode unmarshalEmpty [[5], [0, 0, 0, 0]] =
        .ok (.error "Corrupted BSON stream: could only read 1", [[0, 0, 0, 0]]) :=
  ⟨rfl, rfl, rfl⟩

/-! ## A length prefix below four -/

/-- Whenever the first `Read` brings four bytes giving a length below 4, `Decode`
panics: `make([]byte, length)` has no room for `buf[0:4]`. -/
theorem decode_panics_of_short_length {α : Type} (unmarshal : List UInt8 → Except String α)
    {c : List UInt8} (rest : Stream) (hc : 4 ≤ c.length) (hl : lengthOf (c.take 4) < 4) :
    decode unmarshal (c :: rest) = .error "runtime error: slice bounds out of range [:4]" := by
  obtain ⟨h1, h2, -⟩ := read_spec rest hc
  unfold decode
  generalize read (c :: rest) 4 = R at h1 h2
  obtain ⟨lbuf, rs, err⟩ := R
  dsimp only at h1 h2 ⊢
  subst h1 h2
  simp [hc, hl]

/-- The four zero bytes are such a prefix, and so is `03 00 00 00` with more bytes after
it; the empty document's prefix, 5, is not. -/
theorem decode_short_length_panics :
    decode unmarshalEmpty [[0, 0, 0, 0]] = .error "runtime error: slice bounds out of range [:4]" ∧
      decode unmarshalEmpty [[3, 0, 0, 0], [0, 0, 0, 0, 0]] =
        .error "runtime error: slice bounds out of range [:4]" ∧
      decode unmarshalEmpty [[5, 0, 0, 0], [0]] = .ok (.ok (), []) :=
  ⟨decode_panics_of_short_length unmarshalEmpty [] (by decide) (by decide),
    decode_panics_of_short_length unmarshalEmpty _ (by decide) (by decide), rfl⟩

end Myrpc.Bson

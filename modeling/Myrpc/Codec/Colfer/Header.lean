import Mathlib.Data.List.Basic
import Mathlib.Algebra.Group.Int

/-!
# The Colfer request header (`codec/colfer`)

The Colfer codec frames each message with a `Header` of three fields. `MarshalTo`
writes, in order: the `SeqID` (absent when `0`; tag `0` and a varint below `2^49`;
tag `0x80` and eight big-endian bytes from `2^49` on), the `Method` and the `Error`
(absent when empty; tag `1` or `2`, a varint length, the bytes), and the end byte
`0x7f`. `MarshalLen` counts the same bytes with loops of its own, and `Unmarshal`
reads them back with index checks on every byte.

Byte slices are `List UInt8`; `SeqID` is the `UInt64` of the source and lengths are
natural numbers. Writes out of range and bad slice bounds are runtime panics, the
`error` of an `Except String`. Go's `int` has width `w` (32 or 64), which matters at
`to := i + int(x)` (`stop` here), and the `ColferSizeMax` variable is an argument.

* `varintBytes`, `shifts`: the writing loop and the counting loop of the varint.
* `marshalTo`, `marshalLen`, `marshalBinary`: the encoder.
* `unmarshal`, `unmarshalBinary`: the decoder, as stages over `Step`.
-/

namespace Myrpc.Colfer

/-- `type Header struct { SeqID uint64; Method string; Error string }`. -/
structure Header where
  seqID : UInt64
  method : List UInt8
  error : List UInt8
  deriving DecidableEq, Repr

/-- The zero `Header`. -/
def Header.zero : Header := ⟨0, [], []⟩

/-- The decoder's errors: `io.EOF`, `ColferError` (an unknown header at a byte index),
`ColferMax` (a size limit breach) and `ColferTail` (data after the message). -/
inductive ColferErr
  | eof
  | error (index : Nat)
  | max (msg : String)
  | tail (index : Nat)
  deriving DecidableEq, Repr

/-- `fmt.Sprintf("colfer: struct rpc.header exceeds %d bytes", ColferSizeMax)`. -/
def maxMsg (colferSizeMax : Int) : String :=
  "colfer: struct rpc.header exceeds " ++ toString colferSizeMax ++ " bytes"

/-! ## Encoding -/

/-- The bytes of the `MarshalTo` varint loop: `byte(x | 0x80)` while `x >= 0x80`,
shifting `x` right by 7, then `byte(x)`. -/
def varintBytes (x : Nat) : List UInt8 :=
  if 0x80 ≤ x then UInt8.ofNat (x ||| 0x80) :: varintBytes (x >>> 7) else [UInt8.ofNat x]
termination_by x
decreasing_by rw [Nat.shiftRight_eq_div_pow]; omega

/-- The `MarshalLen` loop `for x >= 0x80 { x >>= 7; l++ }`: how often it adds one. -/
def shifts (x : Nat) : Nat :=
  if 0x80 ≤ x then shifts (x >>> 7) + 1 else 0
termination_by x
decreasing_by rw [Nat.shiftRight_eq_div_pow]; omega

/-- `buf[i] = b`. -/
def setByte (buf : List UInt8) (i : Nat) (b : UInt8) : Except String (List UInt8) :=
  if i < buf.length then .ok (buf.set i b) else .error "index out of range"

/-- Consecutive `buf[i] = b` from index `i` on. -/
def putBytes : List UInt8 → Nat → List UInt8 → Except String (List UInt8)
  | buf, _, [] => .ok buf
  | buf, i, b :: bs => do putBytes (← setByte buf i b) (i + 1) bs

/-- The varint loop of `MarshalTo` from index `i`: the new buffer and index. -/
def putVarint (buf : List UInt8) (i x : Nat) : Except String (List UInt8 × Nat) := do
  pure (← putBytes buf i (varintBytes x), i + (varintBytes x).length)

/-- `copy(buf[i:], src)`: `buf[i:]` panics past the end; `copy` moves as many bytes as
fit. -/
def copyAt (buf : List UInt8) (i : Nat) (src : List UInt8) : Except String (List UInt8) :=
  if i ≤ buf.length then
    .ok (buf.take i ++ src.take (buf.length - i) ++ buf.drop (i + min src.length (buf.length - i)))
  else .error "slice bounds out of range"

/-- `byte(x>>56), …, byte(x)`: the eight bytes of a large `SeqID`, high first. -/
def beBytes (x : Nat) : List UInt8 :=
  [56, 48, 40, 32, 24, 16, 8, 0].map fun s => UInt8.ofNat (x >>> s)

/-- The `SeqID` field of `MarshalTo`, from index `0`. -/
def marshalSeq (x : Nat) (buf : List UInt8) : Except String (List UInt8 × Nat) :=
  if 1 <<< 49 ≤ x then do pure (← putBytes buf 0 (0x80 :: beBytes x), 9)
  else if x ≠ 0 then do putVarint (← setByte buf 0 0) 1 x
  else pure (buf, 0)

/-- The `Method` (`tag = 1`) or `Error` (`tag = 2`) field of `MarshalTo` at index `i`. -/
def marshalField (tag : UInt8) (s : List UInt8) (buf : List UInt8) (i : Nat) :
    Except String (List UInt8 × Nat) :=
  if s.length ≠ 0 then do
    let (buf, i) ← putVarint (← setByte buf i tag) (i + 1) s.length
    pure (← copyAt buf i s, i + s.length)
  else pure (buf, i)

/-- `o.MarshalTo(buf)`: the buffer written and the `int` returned. -/
def marshalTo (o : Header) (buf : List UInt8) : Except String (List UInt8 × Nat) := do
  let (buf, i) ← marshalSeq o.seqID.toNat buf
  let (buf, i) ← marshalField 1 o.method buf i
  let (buf, i) ← marshalField 2 o.error buf i
  pure (← setByte buf i 0x7f, i + 1)

/-- The count `MarshalLen` adds for a `Method` or `Error` of length `x`. -/
def fieldLen (x : Nat) : Nat := if x ≠ 0 then x + shifts x + 2 else 0

/-- The count `MarshalLen` adds for a `SeqID` of `x`. -/
def seqLen (x : Nat) : Nat := if 1 <<< 49 ≤ x then 9 else if x ≠ 0 then 2 + shifts x else 0

/-- `o.MarshalLen()`. The count is a natural number: Go's `int` count equals it as long
as it fits, always on a 64-bit platform, and on a 32-bit one for headers below `2^31`
bytes; past that Go's count wraps and this model no longer follows it. -/
def marshalLen (colferSizeMax : Int) (o : Header) : Nat × Option ColferErr :=
  let l := 1 + seqLen o.seqID.toNat + fieldLen o.method.length + fieldLen o.error.length
  if colferSizeMax < l then (l, some (.max (maxMsg colferSizeMax))) else (l, none)

/-- `o.MarshalBinary()`: `(nil, err)` when `MarshalLen` fails, else `MarshalTo` into
`make([]byte, l)`. -/
def marshalBinary (colferSizeMax : Int) (o : Header) :
    Except String (Option (List UInt8) × Option ColferErr) :=
  match marshalLen colferSizeMax o with
  | (_, some e) => .ok (none, some e)
  | (l, none) => do pure (some (← marshalTo o (List.replicate l 0)).1, none)

/-! ## Decoding -/

/-- Go's conversion of an integer to a signed `int` of width `w`. -/
def goInt (w : Nat) (n : Int) : Int :=
  if 2 ^ (w - 1) ≤ n % 2 ^ w then n % 2 ^ w - 2 ^ w else n % 2 ^ w

/-- The `SeqID` varint loop on `data[i:]`, with `shift` and the `uint64` `x` so far;
`none` is `io.EOF`. The byte read at `shift == 56` is taken whole. -/
def seqVarint : List UInt8 → Nat → Nat → Nat → Option (Nat × Nat)
  | [], _, _, _ => none
  | b :: rest, i, shift, x =>
    if shift = 56 ∨ b.toNat < 0x80 then some (x ||| b.toNat <<< shift, i + 1)
    else seqVarint rest (i + 1) (shift + 7) (x ||| (b.toNat &&& 0x7f) <<< shift)

/-- A length varint loop on `data[i:]` into a `uint32`: a shift by 32 or more gives
`0`, and every term is cut to 32 bits. -/
def lenVarint : List UInt8 → Nat → Nat → Nat → Option (Nat × Nat)
  | [], _, _, _ => none
  | b :: rest, i, shift, x =>
    if b.toNat < 0x80 then some (x ||| (b.toNat <<< shift) % 2 ^ 32, i + 1)
    else lenVarint rest (i + 1) (shift + 7) (x ||| ((b.toNat &&& 0x7f) <<< shift) % 2 ^ 32)

/-- The eight bytes at `data[i..i+7]` as a big-endian `uint64`. -/
def beValue (data : List UInt8) (i : Nat) : Nat :=
  (data.getD i 0).toNat <<< 56 ||| (data.getD (i + 1) 0).toNat <<< 48 |||
    (data.getD (i + 2) 0).toNat <<< 40 ||| (data.getD (i + 3) 0).toNat <<< 32 |||
    (data.getD (i + 4) 0).toNat <<< 24 ||| (data.getD (i + 5) 0).toNat <<< 16 |||
    (data.getD (i + 6) 0).toNat <<< 8 ||| (data.getD (i + 7) 0).toNat

/-- Where a stage of `Unmarshal` leaves off: it returned `(n, err)` with the header as
mutated so far, it panicked, or it goes on with the next `header` byte at index `i`. -/
inductive Step
  | ret (o : Header) (n : Nat) (err : Option ColferErr)
  | panic (msg : String)
  | next (o : Header) (header : UInt8) (i : Nat)
  deriving DecidableEq, Repr

/-- The first byte and the `SeqID` field. -/
def unmarshalSeq (o : Header) (data : List UInt8) : Step :=
  match data with
  | [] => .ret o 0 (some .eof)
  | header :: rest =>
    if header = 0 then
      match seqVarint rest 1 0 0 with
      | none => .ret o 0 (some .eof)
      | some (x, i) =>
        match data[i]? with
        | none => .ret { o with seqID := UInt64.ofNat x } 0 (some .eof)
        | some h => .next { o with seqID := UInt64.ofNat x } h (i + 1)
    else if header = 0x80 then
      if data.length ≤ 1 + 8 then .ret o 0 (some .eof)
      else .next { o with seqID := UInt64.ofNat (beValue data 1) } (data.getD 9 0) 10
    else .next o header 1

/-- The `Method` (`tag = 1`) or `Error` (`tag = 2`) field, stored by `set`. -/
def unmarshalField (w : Nat) (tag : UInt8) (set : Header → List UInt8 → Header)
    (data : List UInt8) : Step → Step
  | .next o header i =>
    if header = tag then
      match lenVarint (data.drop i) i 0 0 with
      | none => .ret o 0 (some .eof)
      | some (x, i) =>
        let stop := goInt w (i + goInt w x)
        if data.length ≤ stop then .ret o 0 (some .eof)
        else if stop < i then .panic "slice bounds out of range"
        else .next (set o ((data.drop i).take (stop.toNat - i))) (data.getD stop.toNat 0)
          (stop.toNat + 1)
    else .next o header i
  | s => s

/-- The end byte. -/
def unmarshalEnd : Step → Except String (Header × Nat × Option ColferErr)
  | .next o header i => if header ≠ 0x7f then .ok (o, 0, some (.error (i - 1))) else .ok (o, i, none)
  | .ret o n err => .ok (o, n, err)
  | .panic msg => .error msg

/-- `Unmarshal` on data within the size limit. -/
def unmarshalBody (w : Nat) (o : Header) (data : List UInt8) :
    Except String (Header × Nat × Option ColferErr) :=
  unmarshalEnd <|
    unmarshalField w 2 (fun o s => { o with error := s }) data <|
    unmarshalField w 1 (fun o s => { o with method := s }) data <|
    unmarshalSeq o data

/-- `o.Unmarshal(data)`. Past `ColferSizeMax` it decodes `data[:ColferSizeMax]`, which
is within the limit, so the source's recursion stops after one call; an `io.EOF` there
becomes `ColferMax`. -/
def unmarshal (w : Nat) (colferSizeMax : Int) (o : Header) (data : List UInt8) :
    Except String (Header × Nat × Option ColferErr) :=
  if colferSizeMax < data.length then
    if colferSizeMax < 0 then .error "slice bounds out of range"
    else match unmarshalBody w o (data.take colferSizeMax.toNat) with
      | .ok (o, _, some .eof) => .ok (o, 0, some (.max (maxMsg colferSizeMax)))
      | r => r
  else unmarshalBody w o data

/-- `o.UnmarshalBinary(data)`: the header and the error. -/
def unmarshalBinary (w : Nat) (colferSizeMax : Int) (o : Header) (data : List UInt8) :
    Except String (Header × Option ColferErr) :=
  match unmarshal w colferSizeMax o data with
  | .ok (o, _, some e) => .ok (o, some e)
  | .ok (o, i, none) => if i ≠ data.length then .ok (o, some (.tail i)) else .ok (o, none)
  | .error msg => .error msg

end Myrpc.Colfer

import Mathlib.Data.List.Forall2

/-!
# Batch requests over an internal pipe (`codec/jsonrpc2/batch.go`)

`JSONMyrpc.Batch` serves the requests of a JSON-RPC batch through a `net.Pipe` to the
server, with two goroutines sharing the buffered channel `replyc`. The sending loop puts
`&jErrRequest` on it for a request that is `nil` or does not unmarshal into `testreq`,
and `nil` for one that leaves `testreq.ID` non-`nil` (its reply is to be read from the
pipe); it writes every request that unmarshals to the pipe and leaves the loop at the
first write that fails, then closes `replyc`. The collecting goroutine appends one entry
to `*replies` for every value it receives, decoding a reply from the pipe for each `nil`,
and signals `donec` once `replyc` is closed and drained. `Batch` returns after `<-donec`.

The collaborators are oracles: what `json.Unmarshal` into `testreq` gives (`RawReq`),
whether the `k`-th `cli.Write` succeeds, and what the `k`-th `dec.Decode` reads. A run is
any interleaving of the steps of the two goroutines.

* `BatchState.Inv`, `BatchState.inv_run`: in every reachable state, what the loop has
  sent is a prefix of what `sendLoop` sends, and `*replies` with what is still in
  `replyc` is the collector's reading of it.
* `returned_replies`: so when `Batch` returns, in whatever interleaving, `*replies` and
  the error are those of the two loops run one after the other.
* `batch_replies`: when `Batch` returns `nil`, `*replies` has one entry for each request
  that is `nil`, unparseable or has an id, in order, `jErrRequest` for the first two
  kinds; when a write fails, only the requests up to that one have entries.
* `write_failure_drops_replies`: a failed write leaves the requests after it without an
  entry.
* `batch_returns`: `replyc` never holds more than `len(arg.reqs)` values, and from any
  point of any run, `len(arg.reqs) + 2` sender steps and then `len(arg.reqs) + 1`
  collector steps make `Batch` return (the pipe's writes and reads are oracle answers,
  so a server that never answers is outside the model).
-/

namespace Myrpc.Jsonrpc2

/-- A request of the batch as the sending loop sees it: `nil`, one whose `json.Unmarshal`
into `testreq` fails, or one that unmarshals and leaves `testreq.ID` non-`nil` or `nil`. -/
inductive RawReq
  | nil
  | unparseable
  | parsed (hasID : Bool)
  deriving DecidableEq, Repr

/-- The requests the sending loop puts a value on `replyc` for once it reaches them:
`nil`, unparseable, or with an id. A parsed request without an id is a notification and
gets none. -/
def RawReq.needsReply : RawReq → Bool
  | .parsed hasID => hasID
  | _ => true

/-- What the loop sends on `replyc`: `&jErrRequest`, or `nil`. -/
inductive Msg
  | jErrRequest
  | nil
  deriving DecidableEq, Repr

/-- An entry of `*replies`: `&jErrRequest`, or what `Decode` read from the pipe. -/
inductive Reply
  | jErrRequest
  | decoded (msg : String)
  deriving DecidableEq, Repr

/-- Where the sending goroutine is: in the loop, after it before `close(replyc)`, or
waiting on `donec`. -/
inductive SenderPc
  | loop
  | closing
  | waiting
  deriving DecidableEq, Repr

/-- Both goroutines and `replyc`. `sent` records, as ghost state, every value put on
`replyc`. -/
structure BatchState where
  rest : List RawReq
  pc : SenderPc
  writes : Nat
  err : Option String
  replyc : List Msg
  replies : List Reply
  decodes : Nat
  finished : Bool
  sent : List Msg
  deriving DecidableEq, Repr

/-- `Batch` right after starting the collector. -/
def BatchState.init (reqs : List RawReq) : BatchState := ⟨reqs, .loop, 0, none, [], [], 0, false, []⟩

/-- A scheduler choice: which goroutine takes its next step. -/
inductive Turn
  | sender
  | collector

/-- The error `cli.Write` returns once the server has closed its end of the pipe. -/
def closedPipe : String := "io: read/write on closed pipe"

section

variable (writeOk : Nat → Bool) (decode : Nat → Option String)

/-- One step of the sending goroutine: one pass of `for _, req := range arg.reqs` (leaving
the loop when the requests run out or a write fails), then `close(replyc)`. -/
def BatchState.send (st : BatchState) : BatchState :=
  match st.pc, st.rest with
  | .loop, [] => { st with pc := .closing }
  | .loop, .parsed hasID :: rest =>
    let msgs := if hasID then [Msg.nil] else []
    let st' := { st with rest := rest, replyc := st.replyc ++ msgs, sent := st.sent ++ msgs,
                         writes := st.writes + 1 }
    if writeOk st.writes then st' else { st' with pc := .closing, err := some closedPipe }
  | .loop, _ :: rest =>
    { st with rest := rest, replyc := st.replyc ++ [.jErrRequest], sent := st.sent ++ [.jErrRequest] }
  | .closing, _ => { st with pc := .waiting }
  | .waiting, _ => st

/-- The entry the collector appends for a value it received, the `k`-th `Decode`
reading the reply for a `nil`. -/
def entry (k : Nat) : Msg → Reply
  | .jErrRequest => .jErrRequest
  | .nil =>
    match decode k with
    | some s => .decoded s
    | none => .jErrRequest

/-- One step of the collecting goroutine: one pass of `for reply := range replyc`, or,
once `replyc` is closed and drained, `donec <- struct{}{}`. -/
def BatchState.collect (st : BatchState) : BatchState :=
  if st.finished then st
  else match st.replyc with
    | m :: q =>
      { st with replyc := q, replies := st.replies ++ [entry decode st.decodes m],
                decodes := if m = .nil then st.decodes + 1 else st.decodes }
    | [] => if st.pc = .waiting then { st with finished := true } else st

def BatchState.step (st : BatchState) : Turn → BatchState
  | .sender => st.send writeOk
  | .collector => st.collect decode

def BatchState.run (st : BatchState) (turns : List Turn) : BatchState :=
  turns.foldl (BatchState.step writeOk decode) st

/-- `Batch` has returned: the loop closed `replyc` and `<-donec` received. -/
def BatchState.Returned (st : BatchState) : Prop := st.pc = .waiting ∧ st.finished = true

/-! ## The two loops one after the other -/

/-- What the sending loop sends from its `k`-th write on, and the error it leaves in
`err`. -/
def sendLoop : Nat → List RawReq → List Msg × Option String
  | _, [] => ([], none)
  | k, .parsed hasID :: rest =>
    let msgs := if hasID then [Msg.nil] else []
    if writeOk k then (msgs ++ (sendLoop (k + 1) rest).1, (sendLoop (k + 1) rest).2)
    else (msgs, some closedPipe)
  | k, _ :: rest => (.jErrRequest :: (sendLoop k rest).1, (sendLoop k rest).2)

/-- The entries the collector appends for the values it receives, in order, from the
`k`-th `Decode` on. -/
def collectAll : Nat → List Msg → List Reply
  | _, [] => []
  | k, m :: q => entry decode k m :: collectAll (if m = .nil then k + 1 else k) q

theorem collectAll_append (a b : List Msg) :
    ∀ k, collectAll decode k (a ++ b) = collectAll decode k a ++ collectAll decode (k + a.count .nil) b := by
  induction a with
  | nil => simp [collectAll]
  | cons m a ih =>
    intro k
    have hk : (if m = .nil then k + 1 else k) + a.count .nil = k + (m :: a).count .nil := by
      rcases m with _ | _ <;> simp [List.count_cons]
      omega
    rw [List.cons_append, collectAll, collectAll, ih, hk, List.cons_append]

/-! ## Every reachable state -/

/-- What holds of every state a run of `Batch` on `reqs` reaches. -/
structure BatchState.Inv (reqs : List RawReq) (st : BatchState) : Prop where
  loop : st.pc = .loop → st.err = none ∧
    sendLoop writeOk 0 reqs = (st.sent ++ (sendLoop writeOk st.writes st.rest).1,
      (sendLoop writeOk st.writes st.rest).2)
  closed : st.pc ≠ .loop → sendLoop writeOk 0 reqs = (st.sent, st.err)
  collected : collectAll decode 0 st.sent = st.replies ++ collectAll decode st.decodes st.replyc
  count : st.sent.count .nil = st.decodes + st.replyc.count .nil
  finished : st.finished = true → st.pc = .waiting ∧ st.replyc = []

theorem BatchState.Inv.init (reqs : List RawReq) : (BatchState.init reqs).Inv writeOk decode reqs :=
  ⟨fun _ => ⟨rfl, by simp [BatchState.init]⟩, fun h => absurd rfl h, by simp [BatchState.init, collectAll],
    rfl, nofun⟩

/-- Putting `msgs` on `replyc` keeps the collector's reading. -/
theorem BatchState.Inv.put {reqs : List RawReq} {st : BatchState} (hi : st.Inv writeOk decode reqs)
    (msgs : List Msg) :
    collectAll decode 0 (st.sent ++ msgs) = st.replies ++ collectAll decode st.decodes (st.replyc ++ msgs) ∧
      (st.sent ++ msgs).count .nil = st.decodes + (st.replyc ++ msgs).count .nil := by
  refine ⟨?_, by rw [List.count_append, List.count_append, hi.count]; omega⟩
  rw [collectAll_append, collectAll_append, hi.collected, hi.count, Nat.zero_add, List.append_assoc]

theorem BatchState.Inv.send {reqs : List RawReq} {st : BatchState} (hi : st.Inv writeOk decode reqs) :
    (st.send writeOk).Inv writeOk decode reqs := by
  have hfin : st.pc = .loop → st.finished = false := fun hpc => by
    cases h : st.finished
    · rfl
    · rw [(hi.finished h).1] at hpc; cases hpc
  unfold BatchState.send
  split
  · rename_i hpc hrest
    obtain ⟨herr, hsl⟩ := hi.loop hpc
    refine ⟨(by rintro ⟨⟩), fun _ => ?_, hi.collected, hi.count, fun h => by simp [hfin hpc] at h⟩
    simp only [hrest, sendLoop, List.append_nil] at hsl
    rw [hsl, herr]
  · rename_i hasID rest hpc hrest
    obtain ⟨herr, hsl⟩ := hi.loop hpc
    obtain ⟨hcol, hcnt⟩ := hi.put writeOk decode (if hasID then [Msg.nil] else [])
    rw [hrest, sendLoop] at hsl
    dsimp only
    split
    · rename_i hw
      rw [if_pos hw] at hsl
      refine ⟨fun _ => ⟨herr, ?_⟩, fun h => absurd hpc h, hcol, hcnt, fun h => by simp [hfin hpc] at h⟩
      rw [hsl, List.append_assoc]
    · rename_i hw
      rw [if_neg hw] at hsl
      exact ⟨(by rintro ⟨⟩), fun _ => hsl, hcol, hcnt, fun h => by simp [hfin hpc] at h⟩
  · rename_i req rest hnp hpc hrest
    obtain ⟨herr, hsl⟩ := hi.loop hpc
    obtain ⟨hcol, hcnt⟩ := hi.put writeOk decode [.jErrRequest]
    have hstep : sendLoop writeOk st.writes (req :: rest) =
        (.jErrRequest :: (sendLoop writeOk st.writes rest).1, (sendLoop writeOk st.writes rest).2) := by
      cases req with
      | parsed b => exact absurd rfl (hnp b)
      | nil => rfl
      | unparseable => rfl
    rw [hrest, hstep] at hsl
    refine ⟨fun _ => ⟨herr, ?_⟩, fun h => absurd hpc h, hcol, hcnt, fun h => by simp [hfin hpc] at h⟩
    rw [hsl, List.append_assoc, List.singleton_append]
  · rename_i hpc
    refine ⟨(by rintro ⟨⟩), fun _ => hi.closed (by rw [hpc]; decide), hi.collected, hi.count, fun h => ?_⟩
    rw [(hi.finished h).1] at hpc
    cases hpc
  · exact hi

theorem BatchState.Inv.collect {reqs : List RawReq} {st : BatchState} (hi : st.Inv writeOk decode reqs) :
    (st.collect decode).Inv writeOk decode reqs := by
  unfold BatchState.collect
  split
  · exact hi
  · rename_i hnf
    split
    · rename_i m q hq
      refine ⟨hi.loop, hi.closed, ?_, ?_, fun h => absurd h hnf⟩
      · rw [hi.collected, hq, collectAll, List.append_assoc, List.singleton_append]
      · dsimp only
        rw [hi.count, hq, List.count_cons]
        cases m
        · simp
        · simp only [beq_self_eq_true, if_true]
          omega
    · split
      · rename_i hq hpc
        exact ⟨hi.loop, hi.closed, hi.collected, hi.count, fun _ => ⟨hpc, hq⟩⟩
      · exact hi

theorem BatchState.Inv.run {reqs : List RawReq} {st : BatchState} (hi : st.Inv writeOk decode reqs)
    (turns : List Turn) : (st.run writeOk decode turns).Inv writeOk decode reqs := by
  induction turns generalizing st with
  | nil => exact hi
  | cons t turns ih =>
    cases t with
    | sender => exact ih hi.send
    | collector => exact ih hi.collect

theorem BatchState.inv_run (reqs : List RawReq) (turns : List Turn) :
    ((BatchState.init reqs).run writeOk decode turns).Inv writeOk decode reqs :=
  (BatchState.Inv.init writeOk decode reqs).run writeOk decode turns

/-- When `Batch` returns, in whatever interleaving, `*replies` is the collector's reading
of everything the loop sent, and the error is the loop's. -/
theorem returned_replies (reqs : List RawReq) (turns : List Turn)
    (h : ((BatchState.init reqs).run writeOk decode turns).Returned) :
    ((BatchState.init reqs).run writeOk decode turns).replies =
        collectAll decode 0 (sendLoop writeOk 0 reqs).1 ∧
      ((BatchState.init reqs).run writeOk decode turns).err = (sendLoop writeOk 0 reqs).2 := by
  have hi := BatchState.inv_run writeOk decode reqs turns
  have hcl := hi.closed (by rw [h.1]; decide)
  rw [hcl]
  refine ⟨?_, rfl⟩
  rw [hi.collected, (hi.finished h.2).2, collectAll, List.append_nil]

/-! ## Which requests get an entry -/

/-- The value the loop puts on `replyc` for a request that gets an entry. -/
def RawReq.msg : RawReq → Msg
  | .parsed _ => .nil
  | _ => .jErrRequest

/-- An entry for a request: `jErrRequest` when the request is `nil` or unparseable. -/
def EntryFor (req : RawReq) (rep : Reply) : Prop := req = .nil ∨ req = .unparseable → rep = .jErrRequest

/-- Run to its end without a failed write, the loop puts one value on `replyc` for each
request that is `nil`, unparseable or has an id; a failed write at the `m`-th request
cuts that list after the `m`-th request. -/
theorem sendLoop_msgs (reqs : List RawReq) :
    ∀ k, ((sendLoop writeOk k reqs).2 = none →
        (sendLoop writeOk k reqs).1 = (reqs.filter RawReq.needsReply).map RawReq.msg) ∧
      ((sendLoop writeOk k reqs).2 ≠ none → ∃ m < reqs.length, (∃ b, reqs[m]? = some (.parsed b)) ∧
        (sendLoop writeOk k reqs).1 = ((reqs.take (m + 1)).filter RawReq.needsReply).map RawReq.msg) := by
  induction reqs with
  | nil => simp [sendLoop]
  | cons req rest ih =>
    intro k
    cases req with
    | parsed hasID =>
      by_cases hw : writeOk k
      · obtain ⟨ih1, ih2⟩ := ih (k + 1)
        simp only [sendLoop, hw, if_true]
        refine ⟨fun h => ?_, fun h => ?_⟩
        · cases hasID <;> simp [RawReq.needsReply, RawReq.msg, ih1 h]
        · obtain ⟨m, hm, hp, hf⟩ := ih2 h
          refine ⟨m + 1, by simp [hm], by simpa using hp, ?_⟩
          cases hasID <;> simp [RawReq.needsReply, RawReq.msg, hf]
      · simp only [sendLoop, hw]
        refine ⟨nofun, fun _ => ⟨0, by simp, ⟨hasID, by simp⟩, ?_⟩⟩
        cases hasID <;> simp [RawReq.needsReply, RawReq.msg]
    | nil | unparseable =>
      obtain ⟨ih1, ih2⟩ := ih k
      simp only [sendLoop]
      refine ⟨fun h => by simp [RawReq.needsReply, RawReq.msg, ih1 h], fun h => ?_⟩
      obtain ⟨m, hm, hp, hf⟩ := ih2 h
      exact ⟨m + 1, by simp [hm], by simpa using hp, by simp [RawReq.needsReply, RawReq.msg, hf]⟩

/-- The collector gives every request the loop answered with `&jErrRequest` a
`jErrRequest` entry, whatever the decodes read. -/
theorem collectAll_entries (reqs : List RawReq) :
    ∀ d, List.Forall₂ EntryFor reqs (collectAll decode d (reqs.map RawReq.msg)) := by
  induction reqs with
  | nil => intro d; exact .nil
  | cons req rest ih =>
    intro d
    cases req with
    | parsed b => exact .cons (by rintro (h | h) <;> cases h) (ih _)
    | nil | unparseable => exact .cons (fun _ => rfl) (ih _)

/-- For every batch, every outcome of the pipe writes and of the decodes, and every
interleaving of the two goroutines, when `Batch` returns: if it returns `nil`, `*replies`
has exactly one entry for each request that is `nil`, unparseable or has an id, in the
order of the requests, and the entry of a `nil` or unparseable request is `jErrRequest`;
if it returns an error, a write failed at the `m`-th request, which unmarshalled, and
only the requests up to it have entries, in the same way. -/
theorem batch_replies (reqs : List RawReq) (turns : List Turn)
    (h : ((BatchState.init reqs).run writeOk decode turns).Returned) :
    (((BatchState.init reqs).run writeOk decode turns).err = none →
        List.Forall₂ EntryFor (reqs.filter RawReq.needsReply)
          ((BatchState.init reqs).run writeOk decode turns).replies) ∧
      (((BatchState.init reqs).run writeOk decode turns).err ≠ none →
        ∃ m < reqs.length, (∃ b, reqs[m]? = some (.parsed b)) ∧
          List.Forall₂ EntryFor ((reqs.take (m + 1)).filter RawReq.needsReply)
            ((BatchState.init reqs).run writeOk decode turns).replies) := by
  obtain ⟨hrep, herr⟩ := returned_replies writeOk decode reqs turns h
  obtain ⟨hok, hfail⟩ := sendLoop_msgs writeOk reqs 0
  rw [hrep, herr]
  refine ⟨fun hn => hok hn ▸ collectAll_entries decode _ 0, fun hn => ?_⟩
  obtain ⟨m, hm, hp, hmsgs⟩ := hfail hn
  exact ⟨m, hm, hp, hmsgs ▸ collectAll_entries decode _ 0⟩

end

/-- Two requests, one with an id and then a `nil` one, every write succeeding: the loop
runs to its end, and the collector then drains `replyc`. -/
theorem batch_replies_ok :
    ((BatchState.init [.parsed true, .nil]).run (fun _ => true) (fun _ => some "ok")
        [.sender, .sender, .sender, .sender, .collector, .collector, .collector]).Returned ∧
      ((BatchState.init [.parsed true, .nil]).run (fun _ => true) (fun _ => some "ok")
        [.sender, .sender, .sender, .sender, .collector, .collector, .collector]).err = none ∧
      List.Forall₂ EntryFor ([RawReq.parsed true, .nil].filter RawReq.needsReply)
        ((BatchState.init [.parsed true, .nil]).run (fun _ => true) (fun _ => some "ok")
          [.sender, .sender, .sender, .sender, .collector, .collector, .collector]).replies :=
  have h : ((BatchState.init [.parsed true, .nil]).run (fun _ => true) (fun _ => some "ok")
      [.sender, .sender, .sender, .sender, .collector, .collector, .collector]).Returned := ⟨rfl, rfl⟩
  ⟨h, rfl, (batch_replies _ _ _ _ h).1 rfl⟩

/-- A request with an id whose write to the pipe fails, then a `nil` request: `Batch`
returns the write's error with a single entry, and the `nil` request, which would have
had the entry `jErrRequest` had the write succeeded, has none. -/
theorem write_failure_drops_replies :
    ((BatchState.init [.parsed true, .nil]).run (fun _ => false) (fun _ => none)
        [.sender, .sender, .collector, .collector]).Returned ∧
      ((BatchState.init [.parsed true, .nil]).run (fun _ => false) (fun _ => none)
        [.sender, .sender, .collector, .collector]).err = some closedPipe ∧
      ((BatchState.init [.parsed true, .nil]).run (fun _ => false) (fun _ => none)
        [.sender, .sender, .collector, .collector]).replies = [.jErrRequest] ∧
      ([RawReq.parsed true, .nil].filter RawReq.needsReply).length = 2 :=
  ⟨⟨rfl, rfl⟩, rfl, rfl, rfl⟩

/-! ## `Batch` always returns -/

section

variable (writeOk : Nat → Bool) (decode : Nat → Option String)

/-- The steps the sending goroutine has left before it waits on `donec`, at most. -/
def BatchState.senderLeft (st : BatchState) : Nat :=
  match st.pc with
  | .loop => st.rest.length + 2
  | .closing => 1
  | .waiting => 0

/-- The steps the collector has left, once `replyc` is closed, before it signals
`donec`. -/
def BatchState.collectorLeft (st : BatchState) : Nat := if st.finished then 0 else st.replyc.length + 1

theorem BatchState.send_waiting {st : BatchState} (h : st.pc = .waiting) : st.send writeOk = st := by
  unfold BatchState.send
  split <;> simp_all

/-- Every step of the sending goroutine before it waits brings it closer to waiting. -/
theorem BatchState.senderLeft_send {st : BatchState} (h : st.pc ≠ .waiting) :
    (st.send writeOk).senderLeft < st.senderLeft := by
  unfold BatchState.send
  split
  · rename_i hpc _
    simp [senderLeft, hpc]
  · rename_i hpc hrest
    dsimp only
    split <;> simp [senderLeft, hpc, hrest]
  · rename_i hpc hrest
    simp [senderLeft, hpc, hrest]
  · rename_i hpc
    simp [senderLeft, hpc]
  · contradiction

theorem BatchState.collect_pc (st : BatchState) : (st.collect decode).pc = st.pc := by
  unfold BatchState.collect
  split
  · rfl
  · split
    · rfl
    · split <;> rfl

/-- With `replyc` closed, every step of the collector before it signals brings it closer
to signalling. -/
theorem BatchState.collectorLeft_collect {st : BatchState} (hw : st.pc = .waiting)
    (h : st.finished = false) : (st.collect decode).collectorLeft < st.collectorLeft := by
  unfold BatchState.collect
  rw [if_neg (by simp [h])]
  split
  · rename_i m q hq
    simp [collectorLeft, h, hq]
  · rename_i hq
    simp [collectorLeft, h, hq, hw]

theorem BatchState.run_append (st : BatchState) (a b : List Turn) :
    st.run writeOk decode (a ++ b) = (st.run writeOk decode a).run writeOk decode b :=
  List.foldl_append _ _ _ _

theorem BatchState.run_senders (n : Nat) :
    ∀ st : BatchState, st.senderLeft ≤ n →
      (st.run writeOk decode (List.replicate n .sender)).pc = .waiting := by
  induction n with
  | zero =>
    intro st h
    unfold senderLeft at h
    split at h <;> first | assumption | omega
  | succ n ih =>
    intro st h
    rw [List.replicate_succ, BatchState.run, List.foldl_cons, BatchState.step]
    by_cases hw : st.pc = .waiting
    · rw [send_waiting writeOk hw]
      exact ih st (by simp [senderLeft, hw])
    · exact ih _ (by have := senderLeft_send writeOk hw; omega)

theorem BatchState.run_collectors (n : Nat) :
    ∀ st : BatchState, st.pc = .waiting → st.collectorLeft ≤ n →
      (st.run writeOk decode (List.replicate n .collector)).Returned := by
  induction n with
  | zero =>
    intro st hw h
    refine ⟨hw, ?_⟩
    unfold collectorLeft at h
    split at h <;> first | assumption | omega
  | succ n ih =>
    intro st hw h
    rw [List.replicate_succ, BatchState.run, List.foldl_cons, BatchState.step]
    cases hf : st.finished
    · exact ih _ (by rw [collect_pc, hw]) (by have := collectorLeft_collect decode hw hf; omega)
    · have : st.collect decode = st := by simp [BatchState.collect, hf]
      rw [this]
      exact ih st hw (by simp [collectorLeft, hf])

/-- Counts that bound every reachable state: each value on `replyc` came from a request
the loop has looked at, and those requests are no longer in `rest`. -/
structure BatchState.Bounds (reqs : List RawReq) (st : BatchState) : Prop where
  sent : st.sent.length + st.rest.length ≤ reqs.length
  replyc : st.replyc.length ≤ st.sent.length

theorem BatchState.Bounds.init (reqs : List RawReq) : (BatchState.init reqs).Bounds reqs :=
  ⟨by simp [BatchState.init], by simp [BatchState.init]⟩

theorem BatchState.Bounds.senderLeft_le {reqs : List RawReq} {st : BatchState}
    (hb : st.Bounds reqs) : st.senderLeft ≤ reqs.length + 2 := by
  have := hb.sent
  unfold BatchState.senderLeft
  split <;> omega

theorem BatchState.Bounds.collectorLeft_le {reqs : List RawReq} {st : BatchState}
    (hb : st.Bounds reqs) : st.collectorLeft ≤ reqs.length + 1 := by
  have := hb.sent
  have := hb.replyc
  unfold BatchState.collectorLeft
  split <;> omega

theorem BatchState.Bounds.send {reqs : List RawReq} {st : BatchState} (hb : st.Bounds reqs) :
    (st.send writeOk).Bounds reqs := by
  have h1 := hb.sent
  have h2 := hb.replyc
  unfold BatchState.send
  split
  · exact ⟨hb.sent, hb.replyc⟩
  · rename_i hasID rest _ hrest
    rw [hrest, List.length_cons] at h1
    dsimp only
    split <;> constructor <;> cases hasID <;> simp <;> omega
  · rename_i rest _ hrest
    rw [hrest, List.length_cons] at h1
    constructor <;> simp <;> omega
  · exact ⟨hb.sent, hb.replyc⟩
  · exact hb

theorem BatchState.Bounds.collect {reqs : List RawReq} {st : BatchState} (hb : st.Bounds reqs) :
    (st.collect decode).Bounds reqs := by
  unfold BatchState.collect
  split
  · exact hb
  · split
    · rename_i m q hq
      have := hb.replyc
      rw [hq, List.length_cons] at this
      exact ⟨hb.sent, by dsimp only; omega⟩
    · split
      · exact ⟨hb.sent, hb.replyc⟩
      · exact hb

theorem BatchState.Bounds.run {reqs : List RawReq} {st : BatchState} (hb : st.Bounds reqs)
    (turns : List Turn) : (st.run writeOk decode turns).Bounds reqs := by
  induction turns generalizing st with
  | nil => exact hb
  | cons t turns ih =>
    cases t with
    | sender => exact ih (hb.send writeOk)
    | collector => exact ih (hb.collect decode)

/-- `Batch` cannot deadlock. In every run, `replyc` never holds more than `len(arg.reqs)`
values, so a send on the buffered channel never blocks; and whatever the two goroutines
have done so far, `len(arg.reqs) + 2` steps of the sending loop followed by
`len(arg.reqs) + 1` steps of the collector make `Batch` return. -/
theorem batch_returns (reqs : List RawReq) (turns : List Turn) :
    ((BatchState.init reqs).run writeOk decode turns).replyc.length ≤ reqs.length ∧
      ((BatchState.init reqs).run writeOk decode
        (turns ++ List.replicate (reqs.length + 2) .sender ++
          List.replicate (reqs.length + 1) .collector)).Returned := by
  have hb := (BatchState.Bounds.init reqs).run writeOk decode turns
  refine ⟨by have := hb.sent; have := hb.replyc; omega, ?_⟩
  rw [BatchState.run_append, BatchState.run_append]
  exact BatchState.run_collectors writeOk decode _ _
    (BatchState.run_senders writeOk decode _ _ hb.senderLeft_le)
    ((hb.run writeOk decode _).collectorLeft_le)

end

end Myrpc.Jsonrpc2

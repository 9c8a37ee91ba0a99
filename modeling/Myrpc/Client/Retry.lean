import Myrpc.Client.Call

/-!
# The retry loops of `Client.Call` (`client/client.go`)

The spec describes `Failover` as up to `MaxTry` attempts with `HandleFailed` after each
failed call, and `Failtry` as attempts against the same invoker, re-selecting only while
none is held. `FailoverTrace` and `FailtryTrace` say this of the events of a run, pass by
pass, and the loops of `Call.lean` are shown to produce only such runs, for every `MaxTry`
and every sequence of answers of the selector and the invokers.

* `failoverLoop_trace`: each `Failover` pass is one `Select`, then, when it gave an
  invoker, one call, followed by `HandleFailed` on that invoker exactly when the call
  failed; the loop returns at the first successful call, after at most `tries` passes.
* `failtryLoop_trace`: `Failtry` calls `Select` only while it holds no invoker, and every
  call goes to the first invoker it obtained.
* `failoverLoop_calls_down`: with a selector that always gives an invoker and calls that
  all fail, `Failover` makes exactly `tries` calls.
* `call_retry_traces`: the three for `Client.Call` with any `MaxTry ≥ 1`.
-/

namespace Myrpc.Client

/-! ## The spec's traces -/

/-- One pass of the `Failover` loop that does not return: `Select` gave no usable invoker
(`continue`), or the call to the invoker it gave failed and `HandleFailed` followed. -/
inductive FailoverPass : List Event → Prop
  | skip {i : Option Invoker} {e : Option String} (h : i = none ∨ e.isSome) :
      FailoverPass [.select i e]
  | failed (i : Invoker) (e : String) :
      FailoverPass [.select (some i) none, .call i (some e), .handleFailed i]

/-- The events of a `Failover` loop of `tries` passes that returned `result`: passes that
did not return, all of them, or fewer followed by one `Select` and a successful call to
the invoker it gave, after which the loop returned `nil`. -/
def FailoverTrace (tries : Nat) (events : List Event) (result : Option String) : Prop :=
  ∃ passes : List (List Event), (∀ p ∈ passes, FailoverPass p) ∧
    ((events = passes.flatten ∧ passes.length = tries) ∨
      ∃ i, events = passes.flatten ++ [.select (some i) none, .call i none] ∧
        passes.length < tries ∧ result = none)

/-- The calls `Failtry` makes in at most `tries` passes once it holds invoker `i`: failed
calls, each followed by `HandleFailed i`, and possibly a last successful one. -/
def FailtryCalls (tries : Nat) (i : Invoker) (events : List Event) : Prop :=
  ∃ fails : List String,
    (events = (fails.map fun e => [Event.call i (some e), .handleFailed i]).flatten ∧
        fails.length ≤ tries) ∨
      (events = (fails.map fun e => [Event.call i (some e), .handleFailed i]).flatten ++ [.call i none] ∧
        fails.length < tries)

/-- The events of a `Failtry` loop of `tries` passes that started with no invoker:
`Select`s that gave none, and then possibly one that gave an invoker, after which only
that invoker is called. -/
def FailtryTrace (tries : Nat) (events : List Event) : Prop :=
  ∃ errs : List (Option String), errs.length ≤ tries ∧
    (events = errs.map (Event.select none) ∨
      ∃ i e rest, events = errs.map (Event.select none) ++ .select (some i) e :: rest ∧
        FailtryCalls (tries - errs.length) i rest)

theorem FailoverTrace.nil (result : Option String) : FailoverTrace 0 [] result :=
  ⟨[], by simp, .inl ⟨rfl, rfl⟩⟩

theorem FailoverTrace.cons {tries : Nat} {p events : List Event} {result : Option String}
    (hp : FailoverPass p) (h : FailoverTrace tries events result) :
    FailoverTrace (tries + 1) (p ++ events) result := by
  obtain ⟨passes, hpass, ⟨rfl, rfl⟩ | ⟨i, rfl, hlt, hres⟩⟩ := h
  · exact ⟨p :: passes, List.forall_mem_cons.mpr ⟨hp, hpass⟩, .inl ⟨by simp, by simp⟩⟩
  · exact ⟨p :: passes, List.forall_mem_cons.mpr ⟨hp, hpass⟩, .inr ⟨i, by simp, by simp [hlt], hres⟩⟩

theorem FailtryCalls.cons {tries : Nat} {i : Invoker} {events : List Event} (e : String)
    (h : FailtryCalls tries i events) :
    FailtryCalls (tries + 1) i (.call i (some e) :: .handleFailed i :: events) := by
  obtain ⟨fails, ⟨rfl, hle⟩ | ⟨rfl, hlt⟩⟩ := h
  · exact ⟨e :: fails, .inl ⟨by simp, by simp [hle]⟩⟩
  · exact ⟨e :: fails, .inr ⟨by simp, by simp [hlt]⟩⟩

theorem FailtryTrace.cons {tries : Nat} {events : List Event} (e : Option String)
    (h : FailtryTrace tries events) : FailtryTrace (tries + 1) (.select none e :: events) := by
  obtain ⟨errs, hle, rfl | ⟨i, e', rest, rfl, hcalls⟩⟩ := h
  · exact ⟨e :: errs, by simp [hle], .inl (by simp)⟩
  · exact ⟨e :: errs, by simp [hle], .inr ⟨i, e', rest, by simp, by simpa using hcalls⟩⟩

/-! ## `Failover` -/

theorem failoverLoop_trace (env : Env) (tries : Nat) (err : Option String) (r : Run) :
    ∃ ev, (failoverLoop env tries err r).2.events = r.events ++ ev ∧
      FailoverTrace tries ev (failoverLoop env tries err r).1 := by
  induction tries generalizing err r with
  | zero => exact ⟨[], by simp [failoverLoop], .nil _⟩
  | succ tries ih =>
    rcases hs : env.select r.selects with ⟨i, e⟩
    by_cases hok : i.isSome ∧ e = none
    · obtain ⟨⟨i, rfl⟩, rfl⟩ := And.intro (Option.isSome_iff_exists.mp hok.1) hok.2
      rcases hc : env.invoke r.calls with _ | e
      · refine ⟨[.select (some i) none, .call i none], ?_, [], by simp, .inr ⟨i, rfl, by simp, ?_⟩⟩ <;>
          simp [failoverLoop, hs, hc]
      · obtain ⟨ev, hev, htr⟩ := ih (some e) (((r.logSelect env).logCall env i).logHandleFailed i)
        have hstep : failoverLoop env (tries + 1) err r =
            failoverLoop env tries (some e) (((r.logSelect env).logCall env i).logHandleFailed i) := by
          simp [failoverLoop, hs, hc]
        rw [hstep]
        exact ⟨_, by simp [hev, hs, hc], htr.cons (.failed i e)⟩
    · obtain ⟨ev, hev, htr⟩ := ih e (r.logSelect env)
      have hstep : failoverLoop env (tries + 1) err r = failoverLoop env tries e (r.logSelect env) := by
        rcases i with _ | i
        · simp [failoverLoop, hs]
        · rcases e with _ | e
          · simp at hok
          · simp [failoverLoop, hs]
      have hskip : i = none ∨ e.isSome := by
        rcases i with _ | i
        · exact .inl rfl
        · rcases e with _ | e
          · simp at hok
          · exact .inr rfl
      rw [hstep]
      exact ⟨_, by simp [hev, hs], htr.cons (.skip hskip)⟩

/-- Every pass makes at most one invoker call. -/
theorem failoverLoop_calls_le (env : Env) (tries : Nat) (err : Option String) (r : Run) :
    (failoverLoop env tries err r).2.calls ≤ r.calls + tries := by
  induction tries generalizing err r with
  | zero => simp [failoverLoop]
  | succ tries ih =>
    rcases hs : env.select r.selects with ⟨_ | i, _ | e⟩
    · have := ih none (r.logSelect env)
      simp only [failoverLoop, hs, Run.logSelect_calls] at this ⊢
      omega
    · have := ih (some e) (r.logSelect env)
      simp only [failoverLoop, hs, Run.logSelect_calls] at this ⊢
      omega
    · rcases hc : env.invoke r.calls with _ | e
      · simp [failoverLoop, hs, hc, Run.logCall]
      · have := ih (some e) (((r.logSelect env).logCall env i).logHandleFailed i)
        have h1 : (((r.logSelect env).logCall env i).logHandleFailed i).calls = r.calls + 1 := rfl
        simp only [failoverLoop, hs, hc, Run.logSelect_calls]
        omega
    · have := ih (some e) (r.logSelect env)
      simp only [failoverLoop, hs, Run.logSelect_calls] at this ⊢
      omega

/-- With a selector that always gives an invoker and invoker calls that all fail,
`Failover` calls on every pass. -/
theorem failoverLoop_calls_down {env : Env} (hsel : ∀ k, ∃ i, env.select k = (some i, none))
    (hinv : ∀ k, (env.invoke k).isSome) (tries : Nat) (err : Option String) (r : Run) :
    (failoverLoop env tries err r).2.calls = r.calls + tries := by
  induction tries generalizing err r with
  | zero => rfl
  | succ tries ih =>
    obtain ⟨i, hs⟩ := hsel r.selects
    obtain ⟨e, hc⟩ := Option.isSome_iff_exists.mp (hinv r.calls)
    simp only [failoverLoop, hs, Run.logSelect_calls, hc, ih]
    simp only [Run.logHandleFailed, Run.logCall, Run.logSelect_calls]
    omega

/-! ## `Failtry` -/

theorem failtryLoop_held (env : Env) (tries : Nat) (i : Invoker) (err : Option String) (r : Run) :
    ∃ ev, (failtryLoop env tries (some i) err r).2.events = r.events ++ ev ∧ FailtryCalls tries i ev := by
  induction tries generalizing err r with
  | zero => exact ⟨[], by simp [failtryLoop], [], .inl ⟨rfl, le_rfl⟩⟩
  | succ tries ih =>
    rcases hc : env.invoke r.calls with _ | e
    · refine ⟨[.call i none], ?_, [], .inr ⟨rfl, by simp⟩⟩
      simp [failtryLoop, failtrySelect, hc]
    · obtain ⟨ev, hev, hcalls⟩ := ih (some e) ((r.logCall env i).logHandleFailed i)
      refine ⟨_, ?_, hcalls.cons e⟩
      simp [failtryLoop, failtrySelect, hc, hev]

theorem failtryLoop_trace (env : Env) (tries : Nat) (err : Option String) (r : Run) :
    ∃ ev, (failtryLoop env tries none err r).2.events = r.events ++ ev ∧ FailtryTrace tries ev := by
  induction tries generalizing err r with
  | zero => exact ⟨[], by simp [failtryLoop], [], le_rfl, .inl rfl⟩
  | succ tries ih =>
    rcases hs : env.select r.selects with ⟨_ | i, e⟩
    · obtain ⟨ev, hev, htr⟩ := ih e (r.logSelect env)
      refine ⟨_, ?_, htr.cons e⟩
      simp [failtryLoop, failtrySelect, hs, hev]
    · rcases hc : env.invoke r.calls with _ | e'
      · refine ⟨[.select (some i) e, .call i none], ?_, [], by simp,
          .inr ⟨i, e, [.call i none], rfl, [], .inr ⟨rfl, by simp⟩⟩⟩
        simp [failtryLoop, failtrySelect, hs, hc]
      · obtain ⟨ev, hev, hcalls⟩ := failtryLoop_held env tries i (some e')
          (((r.logSelect env).logCall env i).logHandleFailed i)
        refine ⟨_, ?_, [], by simp, .inr ⟨i, e, _, rfl, by simpa using hcalls.cons e'⟩⟩
        simp [failtryLoop, failtrySelect, hs, hc, hev]

/-! ## `Client.Call` -/

/-- For every `MaxTry ≥ 1` and every answer of the selector and the invokers:
`Failover` runs as `FailoverTrace` describes over `MaxTry` passes and makes at most
`MaxTry` invoker calls; `Failtry` runs as `FailtryTrace` describes; and under `Failover`,
with a selector that always gives an invoker whose calls all fail, exactly `MaxTry`
calls are made. -/
theorem call_retry_traces (maxTry : Int) (hmax : 1 ≤ maxTry) (env : Env) :
    FailoverTrace maxTry.toNat (call ⟨.failover, maxTry⟩ env).2.events (call ⟨.failover, maxTry⟩ env).1 ∧
      ((call ⟨.failover, maxTry⟩ env).2.calls : Int) ≤ maxTry ∧
      FailtryTrace maxTry.toNat (call ⟨.failtry, maxTry⟩ env).2.events ∧
      ((∀ k, ∃ i, env.select k = (some i, none)) → (∀ k, (env.invoke k).isSome) →
        ((call ⟨.failover, maxTry⟩ env).2.calls : Int) = maxTry) := by
  obtain ⟨h1, h2, h3, h4, h5⟩ := failMode_ne
  have hover : call ⟨.failover, maxTry⟩ env = failoverLoop env maxTry.toNat none Run.init := by
    simp [call, h1, h2]
  have htry : call ⟨.failtry, maxTry⟩ env = failtryLoop env maxTry.toNat none none Run.init := by
    simp [call, h3, h4, h5]
  obtain ⟨ev, hev, hover_tr⟩ := failoverLoop_trace env maxTry.toNat none Run.init
  obtain ⟨ev', hev', htry_tr⟩ := failtryLoop_trace env maxTry.toNat none Run.init
  have h0 : Run.init.calls = 0 := rfl
  refine ⟨?_, ?_, ?_, fun hsel hinv => ?_⟩
  · rw [hover, hev]
    simpa [Run.init] using hover_tr
  · have := failoverLoop_calls_le env maxTry.toNat none Run.init
    rw [hover]
    omega
  · rw [htry, hev']
    simpa [Run.init] using htry_tr
  · rw [hover, failoverLoop_calls_down hsel hinv maxTry.toNat none Run.init, h0]
    omega

/-- A selector whose invokers are always down: every `Select` gives invoker `k` for its
`k`-th answer, and every call fails. -/
def downEnv : Env := ⟨fun k => (some k, none), fun _ => some "down", [], fun i => ⟨i, some "down"⟩⟩

theorem call_retry_traces_down :
    (1 : Int) ≤ 2 ∧ ((∀ k, ∃ i, downEnv.select k = (some i, none)) → (∀ k, (downEnv.invoke k).isSome) →
      ((call ⟨.failover, 2⟩ downEnv).2.calls : Int) = 2) ∧
      ((call ⟨.failover, 2⟩ downEnv).2.calls : Int) = 2 :=
  have h := call_retry_traces 2 (by decide) downEnv
  ⟨by decide, h.2.2.2, h.2.2.2 (fun k => ⟨k, rfl⟩) (fun _ => rfl)⟩

end Myrpc.Client

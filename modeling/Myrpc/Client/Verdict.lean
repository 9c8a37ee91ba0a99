import Myrpc.Client.Call

/-!
# What `Broadcast` and `Forking` return (`client/client.go`)

`invokerBroadCast` and `invokerForking` start one `Go` per invoker of `List()` and then
read `done` in the order the calls complete. `Env.Delivers` says that the first `N`
receives are the `N` calls started, in some order; over every such order:

* `broadCastRecv_none_iff`, `forkingRecv_none_iff`: the receive loops return `nil`
  exactly when every call received, or some call received, had no error.
* `forkingRecv_received`: `Forking` stops at the first call without error it receives.
* `call_fanOut_verdict`: `Client.Call` under `Broadcast` returns `nil` if and only if all
  `N` calls complete without error, and under `Forking` if and only if one does, returning
  right after receiving the first such call.
-/

namespace Myrpc.Client

/-- The calls `Go` started, one per invoker of `List()` in order, and the order `done`
delivers them in: the first `N` receives are a rearrangement of them. -/
def Env.Delivers (env : Env) (calls : List Call) : Prop :=
  calls.map Call.invoker = env.list ∧ ((List.range env.list.length).map env.done).Perm calls

/-! ## The receive loops -/

theorem broadCastRecv_none_iff (env : Env) (l : Nat) (r : Run) :
    (broadCastRecv env l r).1 = none ↔ ∀ j < l, (env.done (r.received + j)).error = none := by
  induction l generalizing r with
  | zero => simp [broadCastRecv]
  | succ l ih =>
    have hr : (r.logRecv env).received = r.received + 1 := rfl
    by_cases he : (env.done r.received).error.isSome
    · have hb : broadCastBody (env.done r.received) = some (some "some invokers return Error") := by
        simp [broadCastBody, he]
      simp only [broadCastRecv, hb, reduceCtorEq, false_iff, not_forall]
      exact ⟨0, by omega, by simpa [Option.isSome_iff_ne_none] using he⟩
    · have hb : broadCastBody (env.done r.received) = none := by simp [broadCastBody, he]
      simp only [broadCastRecv, hb, ih, hr]
      constructor
      · intro h j hj
        cases j with
        | zero => simpa using he
        | succ j => simpa [Nat.add_assoc, Nat.add_comm 1] using h j (by omega)
      · intro h j hj
        simpa [Nat.add_assoc, Nat.add_comm 1] using h (j + 1) (by omega)

theorem forkingRecv_none_iff (env : Env) (l : Nat) (r : Run) :
    (forkingRecv env l r).1 = none ↔ ∃ j < l, (env.done (r.received + j)).error = none := by
  induction l generalizing r with
  | zero => simp [forkingRecv]
  | succ l ih =>
    have hr : (r.logRecv env).received = r.received + 1 := rfl
    by_cases he : (env.done r.received).error = none
    · have hb : forkingBody (env.done r.received) = some none := by simp [forkingBody, he]
      simp only [forkingRecv, hb, true_iff]
      exact ⟨0, by omega, by simpa using he⟩
    · have hb : forkingBody (env.done r.received) = none := by simp [forkingBody, he]
      simp only [forkingRecv, hb, ih, hr]
      constructor
      · rintro ⟨j, hj, h⟩
        exact ⟨j + 1, by omega, by simpa [Nat.add_assoc, Nat.add_comm 1] using h⟩
      · rintro ⟨j, hj, h⟩
        cases j with
        | zero => exact absurd (by simpa using h) he
        | succ j => exact ⟨j, by omega, by simpa [Nat.add_assoc, Nat.add_comm 1] using h⟩

/-- The `Forking` loop returns right after receiving the first call without error. -/
theorem forkingRecv_received (env : Env) {l k : Nat} (r : Run) (hk : k < l)
    (hok : (env.done (r.received + k)).error = none)
    (hfirst : ∀ j < k, (env.done (r.received + j)).error ≠ none) :
    (forkingRecv env l r).2.received = r.received + k + 1 := by
  induction k generalizing l r with
  | zero =>
    obtain ⟨l, rfl⟩ := Nat.exists_eq_succ_of_ne_zero (by omega : l ≠ 0)
    have hb : forkingBody (env.done r.received) = some none := by simpa [forkingBody] using hok
    simp only [forkingRecv, hb]
    rfl
  | succ k ih =>
    obtain ⟨l, rfl⟩ := Nat.exists_eq_succ_of_ne_zero (by omega : l ≠ 0)
    have hb : forkingBody (env.done r.received) = none := by
      simpa [forkingBody] using hfirst 0 (by omega)
    have hr : (r.logRecv env).received = r.received + 1 := rfl
    simp only [forkingRecv, hb]
    rw [ih (r.logRecv env) (by omega) (by rwa [hr, Nat.add_assoc, Nat.add_comm 1])
      (fun j hj => by rw [hr, Nat.add_assoc, Nat.add_comm 1]; exact hfirst (j + 1) (by omega)), hr]
    omega

/-! ## `Client.Call` -/

/-- Every call `done` delivers among the first `N` has the property exactly when every
call started has it. -/
theorem Env.Delivers.forall_iff {env : Env} {calls : List Call} (hd : env.Delivers calls)
    (P : Call → Prop) : (∀ j < env.list.length, P (env.done j)) ↔ ∀ c ∈ calls, P c := by
  rw [← forall_congr' fun c => imp_congr_left hd.2.mem_iff]
  simp

theorem Env.Delivers.exists_iff {env : Env} {calls : List Call} (hd : env.Delivers calls)
    (P : Call → Prop) : (∃ j < env.list.length, P (env.done j)) ↔ ∃ c ∈ calls, P c := by
  rw [← exists_congr fun c => and_congr_left fun _ => hd.2.mem_iff]
  simp

/-- For every non-empty `List()` and every order in which the calls started by `Go`
reach `done`: under `Broadcast`, `Client.Call` returns `nil` if and only if all `N` calls
complete without error; under `Forking`, if and only if at least one does, and it returns
right after receiving the first call without error. -/
theorem call_fanOut_verdict (maxTry : Int) (env : Env) (calls : List Call) (hne : env.list ≠ [])
    (hd : env.Delivers calls) :
    ((call ⟨.broadcast, maxTry⟩ env).1 = none ↔ ∀ c ∈ calls, c.error = none) ∧
      ((call ⟨.forking, maxTry⟩ env).1 = none ↔ ∃ c ∈ calls, c.error = none) ∧
      (∀ k < env.list.length, (env.done k).error = none → (∀ j < k, (env.done j).error ≠ none) →
        (call ⟨.forking, maxTry⟩ env).2.received = k + 1) := by
  have hfork : FailMode.forking ≠ .broadcast := by decide
  have hlen : env.list.length ≠ 0 := fun h => hne (List.length_eq_zero.mp h)
  have hb : call ⟨.broadcast, maxTry⟩ env = broadCastRecv env env.list.length
      ⟨0, 0, 0, [.list env.list] ++ env.list.map .go⟩ := by
    simp [call, invokerBroadCast, fanOut, hlen, Run.init]
  have hf : call ⟨.forking, maxTry⟩ env = forkingRecv env env.list.length
      ⟨0, 0, 0, [.list env.list] ++ env.list.map .go⟩ := by
    simp [call, invokerForking, fanOut, hfork, hlen, Run.init]
  refine ⟨?_, ?_, fun k hk hok hfirst => ?_⟩
  · rw [hb, broadCastRecv_none_iff, ← hd.forall_iff fun c => c.error = none]
    simp
  · rw [hf, forkingRecv_none_iff, ← hd.exists_iff fun c => c.error = none]
    simp
  · rw [hf, forkingRecv_received env _ hk (by simpa using hok) (by simpa using hfirst), Nat.zero_add]

/-- Two invokers, the first failing and the second answering, delivered in that
order: `Broadcast` fails, `Forking` succeeds after two receives. -/
def splitEnv : Env :=
  ⟨fun _ => (none, none), fun _ => none, [0, 1],
    fun k => if k = 0 then ⟨0, some "down"⟩ else ⟨1, none⟩⟩

theorem call_fanOut_verdict_split :
    splitEnv.list ≠ [] ∧ splitEnv.Delivers [⟨0, some "down"⟩, ⟨1, none⟩] ∧
      (call ⟨.broadcast, 3⟩ splitEnv).1 = some "some invokers return Error" ∧
      (call ⟨.forking, 3⟩ splitEnv).2.received = 2 :=
  have hd : splitEnv.Delivers [⟨0, some "down"⟩, ⟨1, none⟩] := ⟨rfl, by decide⟩
  have h := call_fanOut_verdict 3 splitEnv _ (by decide) hd
  ⟨by decide, hd, by decide, h.2.2 1 (by decide) rfl fun j hj => by
    rw [Nat.lt_one_iff.mp hj]
    decide⟩

end Myrpc.Client

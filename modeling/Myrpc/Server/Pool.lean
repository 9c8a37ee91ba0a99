import Myrpc.Server.Answers

/-!
# No context is lost (`server/server.go`)

`getContext` takes a context from `contextPool`, which calls `New()` when it has none to
give, and every path of `ServeConn` hands that context back with `putContext`: at once,
after `sendResponse`, or when the `call` goroutine it started is done. `World.held`
counts what the server holds, the pooled contexts and those of running `call`s, and
`World.allocs` counts the `New()` calls of a run.

`finishCall` drops every goroutine recorded for the request it finishes, so the count
relies on a connection never running two `call`s for one request: `Conn.TasksOk`, kept
by every step.

* `serveConn_held`, `finishCall_held`, `World.step_held`: one loop iteration, one
  finishing `call` and any scheduler step change the contexts held by exactly the one
  `New()` made.
* `World.run_held`: so does every run.
* `serveConn_keeps_contexts`: in every run of the server from its start, each context
  `New()` made is in the pool or held by a running `call`. `ServeRequest` breaks this
  when reading cannot go on.
-/

namespace Myrpc.Server

/-! ## The pool -/


/-- Whether `contextPool.Get` calls `New()`: the pick names no pooled context. -/
def poolMiss (pool : List Context) : Option Nat → Bool
  | some i => pool.length ≤ i
  | none => true

theorem length_poolGet (pool : List Context) (pick : Option Nat) :
    (poolGet pool pick).1.length + 1 = pool.length + if poolMiss pool pick then 1 else 0 := by
  cases pick with
  | none => simp [poolGet, poolMiss]
  | some i =>
    simp only [poolGet, poolMiss]
    by_cases hi : i < pool.length
    · rw [List.getElem?_eq_getElem hi]
      simp only [List.length_eraseIdx, hi, if_true, decide_eq_true_eq]
      split <;> omega
    · rw [List.getElem?_eq_none (by omega)]
      simp only [decide_eq_true_eq]
      split <;> omega

/-! ## What the server holds -/

/-- The running `call` goroutines of a list of connections. -/
def running : List Conn → Nat
  | [] => 0
  | conn :: conns => conn.tasks.length + running conns

theorem running_set {conns : List Conn} {c : Nat} {old : Conn} (h : conns[c]? = some old)
    (conn : Conn) : running (conns.set c conn) + old.tasks.length = running conns + conn.tasks.length := by
  induction conns generalizing c with
  | nil => simp at h
  | cons x conns ih =>
    cases c with
    | zero =>
      simp only [List.getElem?_cons_zero, Option.some.injEq] at h
      subst h
      simp only [List.set_cons_zero, running]
      omega
    | succ c =>
      simp only [List.getElem?_cons_succ] at h
      simp only [List.set_cons_succ, running]
      have := ih h
      omega

theorem running_append (l₁ l₂ : List Conn) : running (l₁ ++ l₂) = running l₁ + running l₂ := by
  induction l₁ with
  | nil => simp [running]
  | cons x l ih => rw [List.cons_append, running, running, ih]; omega

/-- The contexts the server holds: those in the pool and those of running `call`
goroutines. -/
def World.held (w : World) : Nat := w.pool.length + running w.conns

/-- The running `call` goroutines of a connection are for distinct requests it has read. -/
structure Conn.TasksOk (conn : Conn) : Prop where
  nodup : (conn.tasks.map Prod.fst).Nodup
  lt : ∀ p ∈ conn.tasks, p.1 < conn.next

theorem Conn.TasksOk.init : Conn.init.TasksOk := ⟨List.nodup_nil, fun _ h => by cases h⟩

/-- A loop iteration that reads request `conn.next` and starts its `call` or not. -/
theorem Conn.TasksOk.advance {conn conn' : Conn} (ht : conn.TasksOk) (hnext : conn'.next = conn.next + 1)
    (htasks : conn'.tasks = conn.tasks ∨ ∃ ctx, conn'.tasks = conn.tasks ++ [(conn.next, ctx)]) :
    conn'.TasksOk := by
  rcases htasks with htasks | ⟨ctx, htasks⟩
  · exact ⟨htasks ▸ ht.nodup, fun p hp => by have := ht.lt p (htasks ▸ hp); omega⟩
  · refine ⟨?_, fun p hp => ?_⟩
    · rw [htasks, List.map_append, List.nodup_append]
      refine ⟨ht.nodup, List.nodup_singleton _, fun a ha hb => ?_⟩
      obtain ⟨p, hp, rfl⟩ := List.mem_map.mp ha
      have := ht.lt p hp
      simp at hb
      omega
    · rw [htasks, List.mem_append, List.mem_singleton] at hp
      rcases hp with hp | rfl
      · have := ht.lt p hp; omega
      · simp [hnext]

/-- Removing the `call` of request `n`, which a connection runs once, removes one goroutine. -/
theorem length_filter_ne_key {n : Nat} :
    ∀ {tasks : List (Nat × Context)}, (tasks.map Prod.fst).Nodup → n ∈ tasks.map Prod.fst →
      (tasks.filter fun p => p.1 ≠ n).length + 1 = tasks.length
  | [], _, hn => by simp at hn
  | p :: ps, hnd, hn => by
    rw [List.map_cons, List.nodup_cons] at hnd
    rw [List.map_cons, List.mem_cons] at hn
    by_cases hp : p.1 = n
    · subst hp
      rw [List.filter_cons, if_neg (by simp), List.filter_eq_self.mpr fun q hq => ?_, List.length_cons]
      exact decide_eq_true fun h => hnd.1 (h ▸ List.mem_map_of_mem Prod.fst hq)
    · rw [List.filter_cons, if_pos (decide_eq_true hp), List.length_cons, List.length_cons,
        length_filter_ne_key hnd.2 (hn.resolve_left (Ne.symm hp))]

/-! ## Steps -/

section

variable {reg : Registry} {scripts : Nat → Nat → Script}

/-- A mapped computation that succeeded ran to a value. -/
theorem map_eq_ok {ε α β : Type} {x : Except ε α} {f : α → β} {b : β} (h : x.map f = .ok b) :
    ∃ a, x = .ok a ∧ f a = b := by
  cases x with
  | error e => cases h
  | ok a => exact ⟨a, rfl, Except.ok.inj h⟩

/-- A loop iteration puts the context it took back in the pool or hands it to the `call`
it starts, so the contexts held grow only by the one `New()` made. -/
theorem serveConn_held {pool pool' : List Context} {c : Nat} {conn conn' : Conn}
    {pick : Option Nat} (h : serveConn reg scripts pool c conn pick = .ok (pool', conn'))
    (ht : conn.TasksOk) :
    conn'.TasksOk ∧ pool'.length + conn'.tasks.length + 1 =
      pool.length + conn.tasks.length + 1 + if poolMiss pool pick then 1 else 0 := by
  have hg := length_poolGet pool pick
  unfold serveConn at h
  dsimp only at h
  split at h
  · cases h
    refine ⟨ht.advance rfl (.inr ⟨_, rfl⟩), ?_⟩
    simp only [getContext, List.length_append, List.length_singleton, Conn.log]
    omega
  · split at h
    case' isTrue => cases h
    case' isFalse =>
      split at h
      case' isTrue => obtain ⟨⟨ctx', acts⟩, -, he⟩ := map_eq_ok h; cases he
      case' isFalse => cases h
    all_goals
      refine ⟨ht.advance rfl (.inl rfl), ?_⟩
      simp only [getContext, putContext, List.length_append, List.length_singleton, Conn.log]
      omega

/-- A finishing `call` puts its context back in the pool. -/
theorem finishCall_held {pool pool' : List Context} {c : Nat} {conn conn' : Conn} {n : Nat}
    (h : finishCall scripts pool c conn n = .ok (pool', conn')) (ht : conn.TasksOk) :
    conn'.TasksOk ∧ pool'.length + conn'.tasks.length = pool.length + conn.tasks.length := by
  unfold finishCall at h
  split at h
  · cases h
    exact ⟨ht, rfl⟩
  · rename_i ctx hl
    obtain ⟨⟨ctx', acts⟩, -, he⟩ := map_eq_ok h
    cases he
    have hmem : n ∈ conn.tasks.map Prod.fst := List.mem_map_of_mem Prod.fst (mem_of_lookup_eq_some hl)
    have hlen := length_filter_ne_key ht.nodup hmem
    refine ⟨⟨(ht.nodup.sublist ((List.filter_sublist _).map _)), fun p hp =>
      ht.lt p (List.mem_of_mem_filter hp)⟩, ?_⟩
    simp only [putContext, List.length_append, List.length_singleton, Conn.log]
    omega

/-- The contexts `New()` makes at step `op`: one when the loop of a connection that still
reads picks no pooled context. -/
def World.fresh (w : World) : Op → Nat
  | .read c pick =>
    match w.conns[c]? with
    | some conn => if conn.reading && poolMiss w.pool pick then 1 else 0
    | none => 0
  | _ => 0

/-- Every connection of a world runs its `call`s for distinct requests it has read. -/
def World.TasksOk (w : World) : Prop := ∀ conn ∈ w.conns, conn.TasksOk

theorem World.TasksOk.set {w : World} (ht : w.TasksOk) (pool : List Context) {c : Nat}
    {conn : Conn} (hc : conn.TasksOk) : World.TasksOk ⟨pool, w.conns.set c conn⟩ := fun x hx => by
  rcases List.mem_or_eq_of_mem_set hx with hx | rfl
  · exact ht x hx
  · exact hc

/-- One scheduler step keeps the contexts held, but for the one `New()` makes. -/
theorem World.step_held {w w' : World} {op : Op} (h : w.step reg scripts op = .ok w')
    (ht : w.TasksOk) : w'.TasksOk ∧ w'.held = w.held + w.fresh op := by
  cases op with
  | accept =>
    cases h
    refine ⟨fun x hx => ?_, ?_⟩
    · rcases List.mem_append.mp hx with hx | hx
      · exact ht x hx
      · rw [List.mem_singleton.mp hx]
        exact Conn.TasksOk.init
    · simp [World.held, World.fresh, running_append, running, Conn.init]
  | read c pick =>
    simp only [World.step] at h
    cases hc : w.conns[c]? with
    | none => simp only [hc] at h; cases h; exact ⟨ht, by simp [World.fresh, hc]⟩
    | some conn =>
      cases hr : conn.reading
      · simp only [hc, hr] at h; cases h; exact ⟨ht, by simp [World.fresh, hc, hr]⟩
      · simp only [hc, hr, ↓reduceIte] at h
        obtain ⟨⟨pool', conn'⟩, hs, rfl⟩ := map_eq_ok h
        obtain ⟨ht', hlen⟩ := serveConn_held hs (ht conn (List.getElem?_mem hc))
        refine ⟨ht.set _ ht', ?_⟩
        have := running_set hc conn'
        simp only [World.held, World.fresh, hc, hr, Bool.true_and]
        generalize (if poolMiss w.pool pick = true then 1 else 0) = k at hlen ⊢
        omega
  | finish c n =>
    simp only [World.step] at h
    cases hc : w.conns[c]? with
    | none => simp only [hc] at h; cases h; exact ⟨ht, by simp [World.fresh]⟩
    | some conn =>
      simp only [hc] at h
      obtain ⟨⟨pool', conn'⟩, hs, rfl⟩ := map_eq_ok h
      obtain ⟨ht', hlen⟩ := finishCall_held hs (ht conn (List.getElem?_mem hc))
      refine ⟨ht.set _ ht', ?_⟩
      have := running_set hc conn'
      simp only [World.held, World.fresh]
      omega

/-! ## Runs -/

variable (reg scripts) in
/-- The contexts `New()` makes along a run. -/
def World.allocs (w : World) : List Op → Nat
  | [] => 0
  | op :: ops =>
    match w.step reg scripts op with
    | .ok w' => w.fresh op + w'.allocs ops
    | .error _ => 0

/-- Along a whole run, the contexts held grow by exactly the contexts `New()` made. -/
theorem World.run_held {w w' : World} (ops : List Op) (h : w.run reg scripts ops = .ok w')
    (ht : w.TasksOk) : w'.TasksOk ∧ w'.held = w.held + w.allocs reg scripts ops := by
  induction ops generalizing w with
  | nil =>
    cases h
    exact ⟨ht, rfl⟩
  | cons op ops ih =>
    simp only [World.run, List.foldlM_cons] at h
    rcases hs : w.step reg scripts op with _ | w₁
    · rw [hs] at h
      cases h
    · rw [hs] at h
      obtain ⟨ht₁, hh₁⟩ := World.step_held hs ht
      obtain ⟨ht', hh'⟩ := ih h ht₁
      refine ⟨ht', ?_⟩
      simp only [World.allocs, hs]
      omega

end

/-- `ServeConn` never loses a context: in every run of the server from its start, in any
interleaving of its loops and `call` goroutines, each context `contextPool.New` has made
is in the pool or held by a running `call`. -/
theorem serveConn_keeps_contexts (reg : Registry) (scripts : Nat → Nat → Script) (ops : List Op)
    (w : World) (h : World.init.run reg scripts ops = .ok w) :
    w.pool.length + running w.conns = World.init.allocs reg scripts ops := by
  have := (World.run_held ops h (fun _ h => by cases h)).2
  simpa [World.held, World.init, running] using this

/-- Request 1 takes the context request 0 put back: one context is made in all. -/
theorem serveConn_keeps_contexts_recycle :
    ∃ w, World.init.run arithOnce mulScripts recycleOps = .ok w ∧
      w.pool.length + running w.conns = World.init.allocs arithOnce mulScripts recycleOps ∧
      World.init.allocs arithOnce mulScripts recycleOps = 1 := by
  obtain ⟨w, hw⟩ : ∃ w, World.init.run arithOnce mulScripts recycleOps = .ok w := ⟨_, rfl⟩
  exact ⟨w, hw, serveConn_keeps_contexts _ _ _ w hw, by decide⟩

end Myrpc.Server

import Myrpc.Server.Pipeline

/-!
# Every request is answered once, however the calls interleave

The server interleaves the loops of all its connections and the `call` goroutines they
start, over one shared context pool. `ConnInv` says how each connection's acts relate
to `serveAlone`, the request served on its own: requests not yet read have done
nothing; a request whose `call` is still running has done exactly what `readRequest`
did, and the goroutine holds the context `readRequest` left; every other read request
has done exactly what `serveAlone` does from a context `getContext` could hand out; and
a request whose header was not read was the last one its loop read.

* `serveConn_inv`, `finishCall_inv`, `step_inv`: a loop iteration, a finishing `call` and
  any scheduler step keep the invariant and, when every error has a non-empty message,
  do not panic.
* `run_inv`: so does every run, from any world that satisfies it.
* `serveConn_answers`: in every run, each request whose header was read is answered
  exactly as `Answers` asks once its `call` is done, and not before, a success with the
  handler's reply as the `PreWriteResponse` hooks leave it; any other request gets no
  answer and its loop has stopped.
* `emptyError_answered_as_success`: without the non-empty messages this fails. A
  handler error whose message is empty is answered as a success, with the reply, and a
  `URIParse` error with an empty message makes `ServeConn` panic.
-/

namespace Myrpc.Server

/-! ## Acts of a connection -/

theorem Conn.acts_of_trace {conn conn' : Conn} {n : Nat} {acts : List Act}
    (h : conn'.trace = conn.trace ++ acts.map (Prod.mk n)) (m : Nat) :
    conn'.acts m = conn.acts m ++ if m = n then acts else [] := by
  simp only [Conn.acts, h, List.filterMap_append, List.filterMap_map]
  split
  · subst m
    simp [Function.comp_def]
  · have : ¬ n = m := Ne.symm ‹_›
    simp [Function.comp_def, this]

theorem mem_of_lookup_eq_some {l : List (Nat × Context)} {n : Nat} {ctx : Context}
    (h : l.lookup n = some ctx) : (n, ctx) ∈ l := by
  obtain ⟨l₁, l₂, rfl, -⟩ := List.lookup_eq_some_iff.mp h
  simp

section

variable (reg : Registry) (scripts : Nat → Nat → Script)

/-- The invariant of connection `c`, relating each request's acts to `serveAlone`. -/
structure ConnInv (c : Nat) (conn : Conn) : Prop where
  unread : ∀ n, conn.next ≤ n → conn.acts n = []
  running : ∀ p ∈ conn.tasks, p.1 < conn.next ∧
    ∃ ctx : Context, (readRequest (scripts c p.1) reg (ctx.reset c)).err = none ∧
      p.2 = (readRequest (scripts c p.1) reg (ctx.reset c)).ctx ∧
      conn.acts p.1 = (readRequest (scripts c p.1) reg (ctx.reset c)).acts
  done : ∀ n < conn.next, (∀ p ∈ conn.tasks, p.1 ≠ n) →
    ∃ ctx : Context, serveAlone reg (scripts c n) (ctx.reset c) = .ok (conn.acts n)
  stopped : ∀ n < conn.next, (∀ req, ¬ (scripts c n).ReadsHeader req) →
    conn.reading = false ∧ conn.next = n + 1

/-- The invariant of every connection of a world. -/
def WorldInv (w : World) : Prop := ∀ c conn, w.conns[c]? = some conn → ConnInv reg scripts c conn

theorem ConnInv.init (c : Nat) : ConnInv reg scripts c .init :=
  ⟨fun _ _ => rfl, by simp [Conn.init], by simp [Conn.init], by simp [Conn.init]⟩

variable {reg scripts}

/-- Reading request `conn.next` keeps the invariant when its acts `A` are those of
`serveAlone`, or those of `readRequest` with its `call` started, and the loop stops when
its header was not read. -/
theorem ConnInv.advance {c : Nat} {conn conn' : Conn} (hi : ConnInv reg scripts c conn)
    (hr : conn.reading = true) {A : List Act} {T : List (Nat × Context)}
    (htrace : conn'.trace = conn.trace ++ A.map (Prod.mk conn.next))
    (hnext : conn'.next = conn.next + 1) (htasks : conn'.tasks = conn.tasks ++ T)
    (hnew : (T = [] ∧ ∃ ctx : Context, serveAlone reg (scripts c conn.next) (ctx.reset c) = .ok A) ∨
      ∃ ctx : Context, (readRequest (scripts c conn.next) reg (ctx.reset c)).err = none ∧
        T = [(conn.next, (readRequest (scripts c conn.next) reg (ctx.reset c)).ctx)] ∧
        A = (readRequest (scripts c conn.next) reg (ctx.reset c)).acts)
    (hstop : (∀ req, ¬ (scripts c conn.next).ReadsHeader req) → conn'.reading = false) :
    ConnInv reg scripts c conn' where
  unread m hm := by
    rw [Conn.acts_of_trace htrace, hi.unread m (by omega), if_neg (by omega)]
    rfl
  running p hp := by
    rw [htasks, List.mem_append] at hp
    rcases hp with hp | hp
    · obtain ⟨hlt, ctx, h1, h2, h3⟩ := hi.running p hp
      exact ⟨by omega, ctx, h1, h2, by rw [Conn.acts_of_trace htrace, if_neg (by omega), h3,
        List.append_nil]⟩
    · rcases hnew with ⟨rfl, -⟩ | ⟨ctx, h1, rfl, rfl⟩
      · cases hp
      · obtain rfl := List.mem_singleton.mp hp
        exact ⟨by omega, ctx, h1, rfl, by rw [Conn.acts_of_trace htrace, if_pos rfl,
          hi.unread _ le_rfl, List.nil_append]⟩
  done m hm hnot := by
    rw [hnext] at hm
    rcases Nat.lt_succ_iff_lt_or_eq.mp hm with hm | rfl
    · obtain ⟨ctx, h⟩ := hi.done m hm fun p hp => hnot p (by rw [htasks]; exact List.mem_append_left _ hp)
      exact ⟨ctx, by rw [Conn.acts_of_trace htrace, if_neg (by omega), List.append_nil, h]⟩
    · rcases hnew with ⟨-, ctx, h⟩ | ⟨ctx, -, rfl, -⟩
      · exact ⟨ctx, by rw [Conn.acts_of_trace htrace, if_pos rfl, hi.unread _ le_rfl, List.nil_append, h]⟩
      · exact absurd rfl (hnot (conn.next, _) (by
          rw [htasks]; exact List.mem_append_right _ (List.mem_singleton_self _)))
  stopped m hm hno := by
    rw [hnext] at hm ⊢
    rcases Nat.lt_succ_iff_lt_or_eq.mp hm with hm | rfl
    · simp [(hi.stopped m hm hno).1] at hr
    · exact ⟨hstop hno, rfl⟩

/-! ## Steps -/

/-- One iteration of a reading loop keeps the invariant and, when every error has a
non-empty message, does not panic. -/
theorem serveConn_inv {c : Nat} (hne : ∀ n, (scripts c n).NonEmptyErrors) {conn : Conn}
    (hi : ConnInv reg scripts c conn) (hr : conn.reading = true) (pool : List Context)
    (pick : Option Nat) :
    ∃ r, serveConn reg scripts pool c conn pick = .ok r ∧ ConnInv reg scripts c r.2 := by
  obtain ⟨-, -, hcase⟩ := readRequest_cases reg (hne conn.next) ((poolGet pool pick).2.reset c)
  have hsa := serveAlone.eq_1 reg (scripts c conn.next) ((poolGet pool pick).2.reset c)
  simp only [serveConn, getContext]
  generalize hR : readRequest (scripts c conn.next) reg ((poolGet pool pick).2.reset c) = r at hcase hsa ⊢
  cases herr : r.err with
  | none =>
    refine ⟨_, rfl, hi.advance hr rfl rfl rfl (.inr ⟨_, by rw [hR, herr], by rw [hR], by rw [hR]⟩) fun hno => ?_⟩
    rcases hcase with ⟨-, -, he⟩ | ⟨req, hreq, -⟩
    · simp [herr] at he
    · exact absurd hreq (hno req)
  | some e =>
    simp only [herr] at hsa
    cases hk : r.keepReading
    · simp only [hk, Bool.not_false, Bool.false_and, ite_true, ite_false, Bool.false_eq_true] at hsa ⊢
      exact ⟨_, rfl, hi.advance hr rfl rfl (List.append_nil _).symm (.inl ⟨rfl, _, hsa⟩) fun _ => rfl⟩
    · obtain ⟨req, hreq, he⟩ : ∃ req, (scripts c conn.next).ReadsHeader req ∧ e ≠ "" := by
        rcases hcase with ⟨-, hk', -⟩ | ⟨req, hreq, -, -, -, he, -⟩
        · simp [hk] at hk'
        · exact ⟨req, hreq, fun h => he (by rw [herr, h])⟩
      cases hn : r.notSend
      · obtain ⟨s, hs, -⟩ := sendResponse_spec (hne conn.next) r.ctx e (.inl he)
        simp only [hk, hn, hs, Bool.not_false, Bool.not_true, Bool.and_true, ite_true, ite_false, Bool.false_eq_true,
          Except.map] at hsa ⊢
        exact ⟨_, rfl, hi.advance hr (by simp [Conn.log]) rfl (List.append_nil _).symm
          (.inl ⟨rfl, _, hsa⟩) fun hno => absurd hreq (hno req)⟩
      · simp only [hk, hn, Bool.not_true, Bool.and_false, Bool.not_false, ite_true, ite_false, Bool.false_eq_true] at hsa ⊢
        exact ⟨_, rfl, hi.advance hr rfl rfl (List.append_nil _).symm (.inl ⟨rfl, _, hsa⟩)
          fun hno => absurd hreq (hno req)⟩

/-- A finishing `call` keeps the invariant and does not panic: the context it holds
has its reply value allocated. -/
theorem finishCall_inv {c : Nat} (hne : ∀ n, (scripts c n).NonEmptyErrors) {conn : Conn}
    (hi : ConnInv reg scripts c conn) (pool : List Context) (n : Nat) :
    ∃ r, finishCall scripts pool c conn n = .ok r ∧ ConnInv reg scripts c r.2 := by
  unfold finishCall
  cases hl : conn.tasks.lookup n with
  | none => exact ⟨_, rfl, hi⟩
  | some ctx =>
    obtain ⟨hlt, ctx0, herr, hctx, hacts⟩ := hi.running (n, ctx) (mem_of_lookup_eq_some hl)
    dsimp only at hlt herr hctx hacts
    obtain ⟨-, -, hcase⟩ := readRequest_cases reg (hne n) (ctx0.reset c)
    have hrv : ctx.replyv.isSome ∧ ctx.service.isSome := by
      rcases hcase with ⟨-, -, he⟩ | ⟨-, -, -, -, -, -, hrv⟩
      · simp [herr] at he
      · rw [hctx]; exact hrv herr
    obtain ⟨s, hs, -⟩ := call_spec (hne n) ctx hrv.1 hrv.2
    simp only [hs, Except.map]
    refine ⟨_, rfl, ⟨fun m (hm : conn.next ≤ m) => ?_, fun p hp => ?_,
      fun m (hm : m < conn.next) hnot => ?_, hi.stopped⟩⟩
    · rw [Conn.acts_of_trace rfl, hi.unread m hm, if_neg (by omega)]
      rfl
    · obtain ⟨hp, hpn⟩ := List.mem_filter.mp hp
      obtain ⟨hlt', ctx1, h1, h2, h3⟩ := hi.running p hp
      exact ⟨hlt', ctx1, h1, h2, by rw [Conn.acts_of_trace rfl, if_neg (by simpa using hpn), h3,
        List.append_nil]⟩
    · rw [Conn.acts_of_trace rfl]
      by_cases hmn : m = n
      · subst m
        refine ⟨ctx0, ?_⟩
        simp only [serveAlone, herr, ← hctx, hs, Except.map, ← hacts, ite_true]
      · obtain ⟨ctx1, h⟩ := hi.done m hm fun p hp hpm =>
          hnot p (List.mem_filter.mpr ⟨hp, by simp [hpm, hmn]⟩) hpm
        exact ⟨ctx1, by rw [if_neg hmn, List.append_nil, h]⟩

/-! ## Runs -/

variable (reg scripts) in
theorem WorldInv.init : WorldInv reg scripts World.init := fun c conn h => by
  simp [World.init] at h

theorem WorldInv.set {w : World} (hw : WorldInv reg scripts w) {c : Nat} {conn : Conn}
    (hc : ConnInv reg scripts c conn) (pool : List Context) :
    WorldInv reg scripts ⟨pool, w.conns.set c conn⟩ := fun c' conn' h => by
  rw [List.getElem?_set] at h
  split at h
  · subst c'
    split at h
    · cases h; exact hc
    · cases h
  · exact hw c' conn' h

/-- Any scheduler step keeps the invariant of every connection and, when every error
has a non-empty message, does not panic. -/
theorem step_inv (hne : ∀ c n, (scripts c n).NonEmptyErrors) {w : World}
    (hw : WorldInv reg scripts w) (op : Op) :
    ∃ w', w.step reg scripts op = .ok w' ∧ WorldInv reg scripts w' := by
  cases op with
  | accept =>
    refine ⟨_, rfl, fun c conn h => ?_⟩
    rw [List.getElem?_append] at h
    split at h
    · exact hw c conn h
    · obtain ⟨-, rfl⟩ := List.getElem?_eq_some_iff.mp h
      simpa using ConnInv.init reg scripts c
  | read c pick =>
    simp only [World.step]
    cases hc : w.conns[c]? with
    | none => exact ⟨w, rfl, hw⟩
    | some conn =>
      cases hr : conn.reading
      · exact ⟨w, by simp [hr], hw⟩
      · obtain ⟨r, hs, hi⟩ := serveConn_inv (hne c) (hw c conn hc) hr w.pool pick
        exact ⟨_, by simp [hr, hs, Except.map], hw.set hi r.1⟩
  | finish c n =>
    simp only [World.step]
    cases hc : w.conns[c]? with
    | none => exact ⟨w, rfl, hw⟩
    | some conn =>
      obtain ⟨r, hs, hi⟩ := finishCall_inv (hne c) (hw c conn hc) w.pool n
      exact ⟨_, by simp [hs, Except.map], hw.set hi r.1⟩

/-- Every run from a world with the invariant keeps it and does not panic. -/
theorem run_inv (hne : ∀ c n, (scripts c n).NonEmptyErrors) (ops : List Op) :
    ∀ w, WorldInv reg scripts w → ∃ w', w.run reg scripts ops = .ok w' ∧ WorldInv reg scripts w' := by
  induction ops with
  | nil => exact fun w hw => ⟨w, rfl, hw⟩
  | cons op ops ih =>
    intro w hw
    obtain ⟨w₁, h₁, hw₁⟩ := step_inv hne hw op
    obtain ⟨w₂, h₂, hw₂⟩ := ih w₁ hw₁
    exact ⟨w₂, by simp only [World.run, List.foldlM_cons, h₁]; exact h₂, hw₂⟩

end

/-! ## The answers -/

/-- In every run of the server, when every error the hooks, `URIParse` and the handlers
return has a non-empty message: nothing panics, and on every connection, each request
read so far whose header was read has written nothing while its `call` runs and is
answered as `Answers` asks once it is done; a request whose header was not read has
written nothing, and its loop has stopped with it. -/
theorem serveConn_answers (reg : Registry) (scripts : Nat → Nat → Script)
    (hne : ∀ c n, (scripts c n).NonEmptyErrors) (ops : List Op) :
    ∃ w, World.init.run reg scripts ops = .ok w ∧
      ∀ c conn, w.conns[c]? = some conn → ∀ n < conn.next,
        (∀ req, (scripts c n).ReadsHeader req →
          if n ∈ conn.tasks.map Prod.fst then (conn.acts n).filter Act.isWrite = []
          else Answers (scripts c n) req (conn.acts n)) ∧
        ((∀ req, ¬ (scripts c n).ReadsHeader req) →
          (conn.acts n).filter Act.isWrite = [] ∧ conn.reading = false ∧ conn.next = n + 1) := by
  obtain ⟨w, hrun, hw⟩ := run_inv hne ops World.init (WorldInv.init reg scripts)
  refine ⟨w, hrun, fun c conn hc n hn => ?_⟩
  have hi := hw c conn hc
  by_cases hp : n ∈ conn.tasks.map Prod.fst
  · obtain ⟨p, hpmem, rfl⟩ := List.mem_map.mp hp
    obtain ⟨-, ctx, -, -, hacts⟩ := hi.running p hpmem
    obtain ⟨⟨xs, hxs, hq⟩, -⟩ := readRequest_cases reg (hne c p.1) (ctx.reset c)
    have hnw : (conn.acts p.1).filter Act.isWrite = [] := by
      simp [hacts, hxs, hq.filter_isWrite, Act.isWrite]
    exact ⟨fun _ _ => by rw [if_pos hp]; exact hnw, fun hno => ⟨hnw, hi.stopped _ hn hno⟩⟩
  · obtain ⟨ctx, hsa⟩ := hi.done n hn fun p hp' hpn => hp (List.mem_map.mpr ⟨p, hp', hpn⟩)
    obtain ⟨acts, hsa', hans, hno⟩ := serveAlone_answers reg (hne c n) ctx c
    obtain rfl : acts = conn.acts n := Except.ok.inj (hsa'.symm.trans hsa)
    exact ⟨fun req hr => by rw [if_neg hp]; exact hans req hr, fun h => ⟨hno h, hi.stopped n hn h⟩⟩

/-- Every request a call of `Arith.Mul` that succeeds. -/
def mulScripts (_ n : Nat) : Script := mulScript (n + 1)

/-- A connection serving one successful call. -/
theorem serveConn_answers_mulScripts :
    (∀ c n, (mulScripts c n).NonEmptyErrors) ∧
    ∃ w, World.init.run arithOnce mulScripts [.accept, .read 0 none, .finish 0 0] = .ok w ∧
      ∀ c conn, w.conns[c]? = some conn → ∀ n < conn.next,
        (∀ req, (mulScripts c n).ReadsHeader req →
          if n ∈ conn.tasks.map Prod.fst then (conn.acts n).filter Act.isWrite = []
          else Answers (mulScripts c n) req (conn.acts n)) ∧
        ((∀ req, ¬ (mulScripts c n).ReadsHeader req) →
          (conn.acts n).filter Act.isWrite = [] ∧ conn.reading = false ∧ conn.next = n + 1) :=
  have hne : ∀ c n, (mulScripts c n).NonEmptyErrors := fun _ _ =>
    ⟨fun _ => by simp [mulScripts, mulScript], by simp [mulScripts, mulScript],
      by simp [mulScripts, mulScript]⟩
  ⟨hne, serveConn_answers arithOnce mulScripts hne _⟩

/-- A handler error with an empty message is answered as a success: `Error` is empty and
the body is the reply. A `URIParse` error with an empty message makes `ServeConn` panic
on the zero reply value. -/
theorem emptyError_answered_as_success :
    (World.init.run arithOnce (fun _ _ => { mulScript 1 with call := (42, some "") })
        [.accept, .read 0 none, .finish 0 0]).toOption.map
        (fun w => w.conns.map fun conn => (conn.acts 0).filter fun a => a.isWrite || a.fails) =
      some [[.call ⟨"/arith/mul", [], []⟩ (some ""), .writeResponse ⟨"Arith.Mul", 1, ""⟩ (.reply 42)]] ∧
    (World.init.run arithOnce (fun _ _ => { mulScript 1 with uriParse := ("/arith/mul", [], some "") })
        [.accept, .read 0 none]).toOption.isNone := by
  decide

end Myrpc.Server

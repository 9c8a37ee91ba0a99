import Myrpc.Server.Context

/-!
# Serving connections (`server/server.go`)

`ServeConn` loops: take a context from the pool, `readRequest`, and then either stop
(the header could not be read), answer the error at once, drop the request, or start
`call` in a goroutine that answers it later. Writes are serialised by the connection's
`sending` lock and every answered context goes back to the pool.

`World` is the server seen from outside: the shared context pool and every accepted
connection with its loop state, its running `call` goroutines and the acts of each
request, tagged with the request's number on its connection. A run is any sequence of
`Op`s: accepting a connection, one loop iteration on a connection (with the pool's free
choice of context), or one running `call` finishing. A `call` goroutine only touches its
own context, the pool and, under the lock, the codec's write, so running it as one step
changes neither what any request's acts are nor the order of writes on a connection. A
panic ends the run with `.error`.

`sync.Pool.Get` may return any pooled context or a new one; `pick` is that choice.

* `preReadRequestBody_skips_body`: when a `PreReadRequestBody` hook fails, the next
  `ReadRequestHeader` follows a successful one with no `ReadRequestBody` between them,
  under `ServeConn` and under `ServeRequest`.
* `recycled_context_leaks`: two histories that differ only in an earlier request give
  a later request with the same answers different responses (`5boom` against `0boom`)
  and show its `PreReadRequestHeader` hook different paths.
* `discard_overwrites_error_kind`: a failed read of the discarded body replaces the
  error kind in front of the header stage's message.
* `serveRequest_drops_context`: `ServeRequest` does not put back the context of a
  request whose header could not be read.
-/

namespace Myrpc.Server

/-! ## The context pool -/

/-- `contextPool.Get()`: the pooled context `pick` names, taken out of the pool, or
`New()` when `pick` is `none` or names none. -/
def poolGet (pool : List Context) : Option Nat → List Context × Context
  | some i =>
    match pool[i]? with
    | some ctx => (pool.eraseIdx i, ctx)
    | none => (pool, .new)
  | none => (pool, .new)

/-- The fields `getContext` resets before handing `ctx` out for connection `conn`;
`path` and `rpcErrorType` are not among them. -/
def Context.reset (ctx : Context) (conn : Nat) : Context :=
  { ctx with
    req := ⟨"", 0⟩, resp := ⟨"", 0, ""⟩, data := [], service := none, conn := some conn,
    query := [], argv := none, replyv := none }

/-- `server.getContext(conn)`. -/
def getContext (pool : List Context) (pick : Option Nat) (conn : Nat) : List Context × Context :=
  ((poolGet pool pick).1, (poolGet pool pick).2.reset conn)

/-- `server.putContext(ctx)`. -/
def putContext (pool : List Context) (ctx : Context) : List Context :=
  pool ++ [{ ctx with data := [], conn := none }]

/-! ## One request -/

section

variable (sc : Script)

/-- `server.readRequest(ctx)`, which ends with the ghost act of what it returned. On a
header error after which reading goes on, the body is discarded with
`readRequestBody(nil)`, whose error is dropped. -/
def readRequest (reg : Registry) (ctx : Context) : ReadResult :=
  let h := readRequestHeader sc reg ctx
  match h.err with
  | some e =>
    if !h.keepReading then { h with acts := h.acts ++ [.readRequest (some e)] }
    else
      let b := readRequestBody sc h.ctx false
      ⟨b.1, h.acts ++ b.2.1 ++ [.readRequest (some e)], h.keepReading, h.notSend, some e⟩
  | none =>
    let b := readRequestBody sc { h.ctx with argv := some 0 } true
    match b.2.2 with
    | some e => ⟨b.1, h.acts ++ b.2.1 ++ [.readRequest (some e)], h.keepReading, h.notSend, some e⟩
    | none => ⟨{ b.1 with replyv := some 0 }, h.acts ++ b.2.1 ++ [.readRequest none], h.keepReading,
        h.notSend, none⟩

/-- `server.sendResponse(sending, ctx, errmsg)` up to `putContext`: an empty `errmsg`
means success, and then the reply is `ctx.replyv.Interface()`, which panics on the
zero `Value`. -/
def sendResponse (ctx : Context) (errmsg : String) : Except String (Context × List Act) := do
  let ctx := { ctx with resp := { ctx.resp with serviceMethod := ctx.req.serviceMethod } }
  let (ctx, reply) ← if errmsg ≠ "" then
      pure ({ ctx with resp := { ctx.resp with error := errmsg } }, Body.invalidRequest)
    else match ctx.replyv with
      | some v => pure (ctx, Body.reply v)
      | none => throw "reflect: call of reflect.Value.Interface on zero Value"
  let ctx := { ctx with resp := { ctx.resp with seq := ctx.req.seq } }
  pure (writeResponse sc ctx reply)

/-- `server.call(sending, ctx)`: the handler writes its reply into `replyv`, may leave
the context another view, and its error's message becomes `errmsg`. -/
def call (ctx : Context) : Except String (Context × List Act) :=
  let errmsg := match sc.call.2 with
    | some e => e
    | none => ""
  let ctx' := ({ ctx with replyv := ctx.replyv.map fun _ => sc.call.1 } : Context).setView
    (sc.callView ctx.view)
  (sendResponse sc ctx' errmsg).map fun r => (r.1, .call ctx.view sc.call.2 :: r.2)

end

/-! ## Connections and the server -/

/-- A served connection: whether its loop still reads, the number of requests it has
read, its running `call` goroutines (request number and context), and the acts of
every request, tagged with the request's number. -/
structure Conn where
  reading : Bool
  next : Nat
  tasks : List (Nat × Context)
  trace : List (Nat × Act)

/-- A connection `ServeConn` has just started on. -/
def Conn.init : Conn := ⟨true, 0, [], []⟩

/-- Append the acts of request `n`. -/
def Conn.log (conn : Conn) (n : Nat) (acts : List Act) : Conn :=
  { conn with trace := conn.trace ++ acts.map (Prod.mk n) }

/-- The acts of request `n`, in order. -/
def Conn.acts (conn : Conn) (n : Nat) : List Act :=
  conn.trace.filterMap fun p => if p.1 = n then some p.2 else none

/-- The shared context pool and the accepted connections. -/
structure World where
  pool : List Context
  conns : List Conn

def World.init : World := ⟨[], []⟩

/-- A scheduler choice: accept a connection, run one iteration of connection `c`'s
loop (the pool returning `pick`), or let the running `call` of request `n` of `c`
finish. -/
inductive Op
  | accept
  | read (c : Nat) (pick : Option Nat)
  | finish (c : Nat) (n : Nat)

section

variable (reg : Registry) (scripts : Nat → Nat → Script)

/-- One iteration of `ServeConn`'s loop on connection `c`, its request being the
`conn.next`-th. -/
def serveConn (pool : List Context) (c : Nat) (conn : Conn) (pick : Option Nat) :
    Except String (List Context × Conn) :=
  let n := conn.next
  let g := getContext pool pick c
  let r := readRequest (scripts c n) reg g.2
  let conn := { conn.log n r.acts with next := n + 1 }
  match r.err with
  | none => .ok (g.1, { conn with tasks := conn.tasks ++ [(n, r.ctx)] })
  | some e =>
    if !r.keepReading then .ok (putContext g.1 r.ctx, { conn with reading := false })
    else if !r.notSend then
      (sendResponse (scripts c n) r.ctx e).map fun s => (putContext g.1 s.1, conn.log n s.2)
    else .ok (putContext g.1 r.ctx, conn)

/-- The running `call` goroutine of request `n` on connection `c` runs to its end. -/
def finishCall (pool : List Context) (c : Nat) (conn : Conn) (n : Nat) :
    Except String (List Context × Conn) :=
  match conn.tasks.lookup n with
  | none => .ok (pool, conn)
  | some ctx =>
    (call (scripts c n) ctx).map fun s =>
      (putContext pool s.1, { conn.log n s.2 with tasks := conn.tasks.filter fun p => p.1 ≠ n })

/-- One scheduler step; a choice that names no connection, a stopped loop or no
goroutine changes nothing. -/
def World.step (w : World) : Op → Except String World
  | .accept => .ok { w with conns := w.conns ++ [.init] }
  | .read c pick =>
    match w.conns[c]? with
    | some conn =>
      if conn.reading then
        (serveConn reg scripts w.pool c conn pick).map fun r => ⟨r.1, w.conns.set c r.2⟩
      else .ok w
    | none => .ok w
  | .finish c n =>
    match w.conns[c]? with
    | some conn => (finishCall scripts w.pool c conn n).map fun r => ⟨r.1, w.conns.set c r.2⟩
    | none => .ok w

/-- The world after a run. -/
def World.run (w : World) (ops : List Op) : Except String World :=
  ops.foldlM (World.step reg scripts) w

/-- `server.ServeRequest(conn)` on connection `c`: one request, answered before it
returns; when reading cannot go on the context is not put back. -/
def serveRequest (pool : List Context) (c : Nat) (conn : Conn) (pick : Option Nat) :
    Except String (List Context × Conn × Option String) :=
  let n := conn.next
  let g := getContext pool pick c
  let r := readRequest (scripts c n) reg g.2
  let conn := { conn.log n r.acts with next := n + 1 }
  match r.err with
  | none => (call (scripts c n) r.ctx).map fun s => (putContext g.1 s.1, conn.log n s.2, none)
  | some e =>
    if !r.keepReading then .ok (g.1, conn, some e)
    else if !r.notSend then
      (sendResponse (scripts c n) r.ctx e).map fun s => (putContext g.1 s.1, conn.log n s.2, some e)
    else .ok (putContext g.1 r.ctx, conn, some e)

end

/-! ## Runs on fixed inputs -/

/-- A well-formed call of `Arith.Mul` with sequence number `seq`, where every hook
passes, the argument decodes to `7` and the handler replies `42`. -/
def mulScript (seq : Nat) : Script where
  hook _ := none
  readRequestHeader := .ok ⟨"Arith.Mul", seq⟩
  uriParse := ("/arith/mul", [], none)
  readRequestBody := .ok 7
  call := (42, none)

/-- A codec act: `ReadRequestHeader` or `ReadRequestBody`. -/
def Act.isCodecRead : Act → Bool
  | .readRequestHeader _ | .readRequestBody _ => true
  | _ => false

/-- Request 0 is refused by the `PreReadRequestBody` hook; request 1 is `mulScript 2`. -/
def deniedBodyScripts (_ n : Nat) : Script :=
  if n = 0 then { mulScript 1 with hook := fun h => if h = .preReadRequestBody then some "denied" else none }
  else mulScript 2

/-- With `PreReadRequestBody` refusing request 0, the codec reads its header, and the
next read is a header again: the first body is never consumed, by `ServeConn` and by two
`ServeRequest` calls alike. -/
theorem preReadRequestBody_skips_body :
    (World.init.run arithOnce deniedBodyScripts [.accept, .read 0 none, .read 0 none]).toOption.map
        (fun w => w.conns.map fun conn => conn.trace.filter fun (p : Nat × Act) => p.2.isCodecRead) =
      some [[(0, .readRequestHeader (.ok ⟨"Arith.Mul", 1⟩)), (1, .readRequestHeader (.ok ⟨"Arith.Mul", 2⟩)),
        (1, .readRequestBody (.ok 7))]] ∧
    (do
        let r ← serveRequest arithOnce deniedBodyScripts [] 0 .init none
        let r ← serveRequest arithOnce deniedBodyScripts r.1 0 r.2.1 none
        pure (r.2.1.trace.filter fun (p : Nat × Act) => p.2.isCodecRead)).toOption =
      some [(0, .readRequestHeader (.ok ⟨"Arith.Mul", 1⟩)), (1, .readRequestHeader (.ok ⟨"Arith.Mul", 2⟩)),
        (1, .readRequestBody (.ok 7))] := by
  decide

/-- A history whose first request on connection 0 has the answers `first`, after which
every request is a call of `Arith.Mul` whose handler fails with `boom`. -/
def boomHistory (first : Script) (_ n : Nat) : Script :=
  if n = 0 then first else { mulScript (n + 1) with call := (0, some "boom") }

/-- A request for a path no service has. -/
def notFoundScript : Script := { mulScript 1 with uriParse := ("/nosuch", [], none) }

/-- Serve request 0 to its end, then request 1 on the context it left in the pool. -/
def recycleOps : List Op := [.accept, .read 0 none, .finish 0 0, .read 0 (some 0), .finish 0 1]

/-- Request 1 has the same answers after either history, yet its `PreReadRequestHeader`
hook sees the path of request 0, and its error is prefixed with the kind of request 0's
failure. -/
theorem recycled_context_leaks :
    boomHistory (mulScript 1) 0 1 = boomHistory notFoundScript 0 1 ∧
    (World.init.run arithOnce (boomHistory (mulScript 1)) recycleOps).toOption.map
        (fun w => w.conns.map fun conn => ((conn.acts 1).head?, (conn.acts 1).getLast?)) =
      some [(some (.hook .preReadRequestHeader ⟨"/arith/mul", [], []⟩ none),
        some (.writeResponse ⟨"Arith.Mul", 2, "0boom"⟩ .invalidRequest))] ∧
    (World.init.run arithOnce (boomHistory notFoundScript) recycleOps).toOption.map
        (fun w => w.conns.map fun conn => ((conn.acts 1).head?, (conn.acts 1).getLast?)) =
      some [(some (.hook .preReadRequestHeader ⟨"/nosuch", [], []⟩ none),
        some (.writeResponse ⟨"Arith.Mul", 2, "5boom"⟩ .invalidRequest))] :=
  ⟨rfl, by decide, by decide⟩

/-- A request for a path no service has, whose body the codec then fails to read. -/
def notFoundBadBodyScript : Script := { notFoundScript with readRequestBody := .error "EOF" }

/-- A request for an unknown path is answered with the `NotFoundService` kind, 5, in
front of its message when the body it discards reads; when that read fails, the
`ReadRequestBody` kind, 7, takes its place in front of the same message. -/
theorem discard_overwrites_error_kind :
    (World.init.run arithOnce (fun _ _ => notFoundScript) [.accept, .read 0 none]).toOption.map
        (fun w => w.conns.map fun conn => (conn.acts 0).getLast?) =
      some [some (.writeResponse ⟨"Arith.Mul", 1, "5can't find service '/nosuch'"⟩ .invalidRequest)] ∧
    (World.init.run arithOnce (fun _ _ => notFoundBadBodyScript) [.accept, .read 0 none]).toOption.map
        (fun w => w.conns.map fun conn => (conn.acts 0).getLast?) =
      some [some (.writeResponse ⟨"Arith.Mul", 1, "7can't find service '/nosuch'"⟩ .invalidRequest)] := by
  decide

/-- A connection at its end: `ReadRequestHeader` returns `io.EOF`. -/
def eofScript : Script := { mulScript 0 with readRequestHeader := .eof }

/-- On a connection at its end, `ServeConn` puts its context back before it stops, but
`ServeRequest` returns without `putContext`: the pool that held one context holds it
again after the first and is empty after the second. -/
theorem serveRequest_drops_context :
    (serveConn arithOnce (fun _ _ => eofScript) [.new] 0 .init (some 0)).toOption.map
        (fun r => (r.1.length, r.2.reading)) = some (1, false) ∧
      (serveRequest arithOnce (fun _ _ => eofScript) [.new] 0 .init (some 0)).toOption.map
        (fun r => (r.1.length, r.2.2)) = some (0, some "EOF") := by
  decide

end Myrpc.Server

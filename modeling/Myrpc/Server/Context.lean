import Myrpc.Server.Registry

/-!
# The request context (`server/server_context.go`)

A `Context` carries one request through the server: the decoded `rpc.Request`, the
`rpc.Response` being built, the service found for its path, the argument and reply
values, the parsed path and query, a data map and the kind of the last error.
`readRequestHeader`, `readRequestBody` and `writeResponse` are its three I/O stages;
each runs plugin hooks around one codec call and records an error kind on failure.

The collaborators are not in the repository's files or are arbitrary by nature: the
plugin containers, the codec, `URIParse` and the handler. Each is called at most once
per request, so a request's `Script` (one answer for each) covers every behaviour they
can have. A hook and the handler are handed the `*Context` itself, and through its
exported `SetPath`, `SetData` and the maps `Query()` and `DataAll()` return they may
leave it another view; a `PreWriteResponse` hook is also handed the reply object. Every
stage returns the `Act`s it performed: each hook call with the view it was shown and
what it returned, each codec call, and the `Response` and body handed to
`WriteResponse`. The error kinds are modelled from the spec's numbering.
-/

namespace Myrpc.Server

/-! ## Requests, responses and contexts -/

/-- The fields of `rpc.Request` the server reads. -/
structure Request where
  serviceMethod : String
  seq : Nat
  deriving DecidableEq, Repr

/-- `rpc.Response`. -/
structure Response where
  serviceMethod : String
  seq : Nat
  error : String
  deriving DecidableEq, Repr

/-- `url.Values`. -/
abbrev Query := List (String × List String)

/-- What a hook or a handler reads of a `Context`: `Path()`, `Query()` and the `Data`
map. `ServiceMethod()` is `URIEncode(query, path)`, a function of these. -/
structure View where
  path : String
  query : Query
  data : List (String × String)
  deriving DecidableEq, Repr

/-- A `*Context`. A `reflect.Value` is `none` when it is the zero `Value`; `conn` is the
codec connection (`nil` is `none`); `rpcErrorType` is the `common.ErrorType` code. -/
structure Context where
  conn : Option Nat
  req : Request
  resp : Response
  service : Option Service
  argv : Option Nat
  replyv : Option Nat
  path : String
  query : Query
  data : List (String × String)
  rpcErrorType : Nat
  deriving DecidableEq, Repr

/-- What hooks and handlers see of `ctx`. -/
def Context.view (ctx : Context) : View := ⟨ctx.path, ctx.query, ctx.data⟩

/-- `ctx` with the view `v`: what `SetPath`, `SetData` and writes into the maps of
`Query()` and `DataAll()` change. -/
def Context.setView (ctx : Context) (v : View) : Context :=
  { ctx with path := v.path, query := v.query, data := v.data }

section

variable (ctx : Context) (v : View)

@[simp] theorem Context.view_setView : (ctx.setView v).view = v := rfl
@[simp] theorem Context.setView_setView (w : View) : (ctx.setView v).setView w = ctx.setView w := rfl
@[simp] theorem Context.setView_path : (ctx.setView v).path = v.path := rfl
@[simp] theorem Context.setView_req : (ctx.setView v).req = ctx.req := rfl
@[simp] theorem Context.setView_resp : (ctx.setView v).resp = ctx.resp := rfl
@[simp] theorem Context.setView_service : (ctx.setView v).service = ctx.service := rfl
@[simp] theorem Context.setView_replyv : (ctx.setView v).replyv = ctx.replyv := rfl
@[simp] theorem Context.setView_rpcErrorType : (ctx.setView v).rpcErrorType = ctx.rpcErrorType := rfl

end

/-- The context `contextPool.New` makes: `req` and `resp` fresh, every other field zero. -/
def Context.new : Context := ⟨none, ⟨"", 0⟩, ⟨"", 0, ""⟩, none, none, none, "", [], [], 0⟩

/-! ## Error kinds (modelled from the spec's numbering) -/

def errorTypeServerPreReadRequestHeader : Nat := 1
def errorTypeServerReadRequestHeader : Nat := 2
def errorTypeServerInvalidServiceMethod : Nat := 3
def errorTypeServerPostReadRequestHeader : Nat := 4
def errorTypeServerNotFoundService : Nat := 5
def errorTypeServerPreReadRequestBody : Nat := 6
def errorTypeServerReadRequestBody : Nat := 7
def errorTypeServerPostReadRequestBody : Nat := 8
def errorTypeServerPreWriteResponse : Nat := 9

/-! ## What the collaborators answer -/

/-- The plugin hooks run on a request; the `Service` ones are those of the service's
own container. -/
inductive Hook
  | preReadRequestHeader
  | postReadRequestHeader
  | preReadRequestBody
  | preReadRequestBodyService
  | postReadRequestBodyService
  | postReadRequestBody
  | preWriteResponse
  | preWriteResponseService
  deriving DecidableEq, Repr

/-- The codec's `ReadRequestHeader`: `io.EOF`, `io.ErrUnexpectedEOF`, another error, or
a decoded header. -/
inductive HeaderRead
  | eof
  | unexpectedEOF
  | error (msg : String)
  | ok (req : Request)
  deriving DecidableEq, Repr

/-- The codec's `ReadRequestBody`: an error, or the decoded argument. -/
inductive BodyRead
  | error (msg : String)
  | ok (argv : Nat)
  deriving DecidableEq, Repr

/-- One request's answers: each hook's error, the codec's reads, `URIParse`'s
`(path, query, err)` and the handler's reply and error. An error is `some msg`; its
message may be empty. `hookView h v` and `callView v` are the views hook `h` and the
handler leave when shown `v`, and `hookReply h` what a `PreWriteResponse` hook leaves in
the reply object; by default they change nothing. What the body hooks do to the
argument is not followed: nothing downstream of them reads it but the handler, whose
answer is the script's. -/
structure Script where
  hook : Hook → Option String
  readRequestHeader : HeaderRead
  uriParse : String × Query × Option String
  readRequestBody : BodyRead
  call : Nat × Option String
  hookView : Hook → View → View := fun _ v => v
  hookReply : Hook → Nat → Nat := fun _ v => v
  callView : View → View := id

/-- What `WriteResponse` is given as the body: `invalidRequest`, `nil` or the reply. -/
inductive Body
  | invalidRequest
  | nil
  | reply (v : Nat)
  deriving DecidableEq, Repr

/-- The body after the reply object it points to became `f` of what it held. -/
def Body.map (f : Nat → Nat) : Body → Body
  | .reply v => .reply (f v)
  | b => b

/-- One thing a request does: a hook call (with the context state it saw and its
error), a codec call, what `readRequest` returned, a handler call, or a codec write. -/
inductive Act
  | hook (h : Hook) (v : View) (err : Option String)
  | readRequestHeader (r : HeaderRead)
  | readRequestBody (r : BodyRead)
  | readRequest (err : Option String)
  | call (v : View) (err : Option String)
  | writeResponse (resp : Response) (body : Body)
  deriving DecidableEq, Repr

/-! ## The stages -/

section

variable (sc : Script)

/-- Hook `h` handed `ctx`: the context with the view it leaves, and its act. -/
def runHook (ctx : Context) (h : Hook) : Context × Act :=
  (ctx.setView (sc.hookView h ctx.view), .hook h ctx.view (sc.hook h))

/-- `PluginContainer.doX(ctx)` and then, when that returned `nil` and
`ctx.service != nil`, `ctx.service.GetPluginContainer().doX(ctx)`. -/
def runHooks (ctx : Context) (h h' : Hook) : Context × List Act × Option String :=
  let a := runHook sc ctx h
  match sc.hook h, ctx.service with
  | none, some _ =>
    let b := runHook sc a.1 h'
    (b.1, [a.2, b.2], sc.hook h')
  | e, _ => (a.1, [a.2], e)

/-- What the hooks of `acts` leave in a reply object holding `v`, in the order they ran. -/
def replyAfter (acts : List Act) (v : Nat) : Nat :=
  acts.foldl (fun v a => match a with
    | .hook h _ _ => sc.hookReply h v
    | _ => v) v

/-- What `readRequestHeader` and `readRequest` return, with the context after them and
the acts on the way. -/
structure ReadResult where
  ctx : Context
  acts : List Act
  keepReading : Bool
  notSend : Bool
  err : Option String

/-- `ctx.readRequestHeader()` (the deadlines are left out), against the registry
`reg`. -/
def readRequestHeader (reg : Registry) (ctx : Context) : ReadResult :=
  let pre := runHook sc ctx .preReadRequestHeader
  let ctx := pre.1
  match sc.hook .preReadRequestHeader with
  | some e => ⟨{ ctx with rpcErrorType := errorTypeServerPreReadRequestHeader }, [pre.2], false, false, some e⟩
  | none =>
    let acts := [pre.2, .readRequestHeader sc.readRequestHeader]
    match sc.readRequestHeader with
    | .eof => ⟨{ ctx with rpcErrorType := errorTypeServerReadRequestHeader }, acts, false, true, some "EOF"⟩
    | .unexpectedEOF =>
      ⟨{ ctx with rpcErrorType := errorTypeServerReadRequestHeader }, acts, false, true, some "unexpected EOF"⟩
    | .error e => ⟨{ ctx with rpcErrorType := errorTypeServerReadRequestHeader }, acts, false, false,
        some ("ReadRequestHeader: " ++ e)⟩
    | .ok req =>
      let ctx := { ctx with req := req, path := sc.uriParse.1, query := sc.uriParse.2.1 }
      match sc.uriParse.2.2 with
      | some e => ⟨{ ctx with rpcErrorType := errorTypeServerInvalidServiceMethod }, acts, true, false, some e⟩
      | none =>
        let post := runHook sc ctx .postReadRequestHeader
        let ctx := post.1
        let acts := acts ++ [post.2]
        match sc.hook .postReadRequestHeader with
        | some e => ⟨{ ctx with rpcErrorType := errorTypeServerPostReadRequestHeader }, acts, true, false, some e⟩
        | none =>
          let ctx := { ctx with service := reg.serviceMap.lookup ctx.path }
          match ctx.service with
          | none => ⟨{ ctx with rpcErrorType := errorTypeServerNotFoundService }, acts, true, false,
              some ("can't find service '" ++ ctx.path ++ "'")⟩
          | some _ => ⟨ctx, acts, true, false, none⟩

/-- The post hooks of `readRequestBody`: the service's (when there is a service), then,
when that returned `nil`, the server's. -/
def postReadRequestBody (ctx : Context) : Context × List Act × Option String :=
  let s : Context × List Act × Option String := match ctx.service with
    | some _ =>
      let a := runHook sc ctx .postReadRequestBodyService
      (a.1, [a.2], sc.hook .postReadRequestBodyService)
    | none => (ctx, [], none)
  match s.2.2 with
  | none =>
    let a := runHook sc s.1 .postReadRequestBody
    (a.1, s.2.1 ++ [a.2], sc.hook .postReadRequestBody)
  | some e => (s.1, s.2.1, some e)

/-- `ctx.readRequestBody(body)`; `decode` says that `body` is the argument
(`argv.Interface()`) rather than `nil`, so the decoded value lands in `argv`. -/
def readRequestBody (ctx : Context) (decode : Bool) : Context × List Act × Option String :=
  let p := runHooks sc ctx .preReadRequestBody .preReadRequestBodyService
  match p.2.2 with
  | some e => ({ p.1 with rpcErrorType := errorTypeServerPreReadRequestBody }, p.2.1, some e)
  | none =>
    let acts := p.2.1 ++ [.readRequestBody sc.readRequestBody]
    match sc.readRequestBody with
    | .error e => ({ p.1 with rpcErrorType := errorTypeServerReadRequestBody }, acts,
        some ("ReadRequestBody: " ++ e))
    | .ok v =>
      let q := postReadRequestBody sc (if decode then { p.1 with argv := some v } else p.1)
      match q.2.2 with
      | some e => ({ q.1 with rpcErrorType := errorTypeServerPostReadRequestBody }, acts ++ q.2.1, some e)
      | none => (q.1, acts ++ q.2.1, none)

/-- `ctx.writeResponse(body)` (the deadlines and the post-write hooks, whose errors are
only logged, are left out; what those hooks change of the view reaches only the path of
the context put back in the pool). A hook error replaces `resp.Error` and the body; a
non-empty `resp.Error` is prefixed with the error kind. -/
def writeResponse (ctx : Context) (body : Body) : Context × List Act :=
  let p := runHooks sc ctx .preWriteResponse .preWriteResponseService
  let (ctx, body) : Context × Body := match p.2.2 with
    | some e =>
      ({ p.1 with rpcErrorType := errorTypeServerPreWriteResponse, resp := { p.1.resp with error := e } },
        .nil)
    | none => (p.1, body.map (replyAfter sc p.2.1))
  let ctx := if ctx.resp.error.length > 0 then
      { ctx with resp := { ctx.resp with error := toString ctx.rpcErrorType ++ ctx.resp.error } }
    else ctx
  (ctx, p.2.1 ++ [.writeResponse ctx.resp body])

end

end Myrpc.Server

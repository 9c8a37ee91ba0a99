import Mathlib.Data.List.Sort
import Mathlib.Data.String.Basic

/-!
# Service registration (`server/server.go`)

`Server.register` builds the services of a receiver with the `ServiceBuilder`, then,
for each built service in turn, records an `AlreadyExists` error when its path is
already a key of `serviceMap`, runs the `doRegister` hook of the server's plugin
container and of the service's own container, appends the path to `routers` and
stores the service under its path. Only when no error was collected does it sort
`routers`.

The builder (`NormServiceBuilder`) and the plugin containers are not in the
repository's files. The builder is a parameter of every definition here and
`newServices` models the default one from the spec; the `doRegister` answers are an
argument (`RegisterHooks`), so a statement over all of them covers every plugin.

* `register_replaces`: registering a path that is already bound rebinds it to the new
  service, although the call reports `AlreadyExists`.
* `register_twice_routers`: after the second registration `routers` lists the path
  twice.
-/

namespace Myrpc.Server

/-- A receiver as the builder sees it: an identity, the `reflect` type string and the
methods with whether their signature is eligible. -/
structure Receiver where
  id : Nat
  typeName : String
  methods : List (String × Bool)
  deriving DecidableEq, Repr

/-- An `IService`: its path, the receiver and method it calls, and the names of the
plugins in the container `SetPluginContainer` gave it. -/
structure Service where
  path : String
  receiver : Nat
  method : String
  plugins : List String
  deriving DecidableEq, Repr

/-- ASCII lowercasing, as `strings.ToLower` does on ASCII names. -/
def lower (s : String) : String := ⟨s.data.map Char.toLower⟩

/-- Modelled from the spec: `NormServiceBuilder.NewServices` with the URL format. One
service per eligible method, at `"/" + lower(seg₁) + "/" + … + "/" + lower(method)`;
a receiver without eligible methods yields no service, which `register` rejects. -/
def newServices (rcvr : Receiver) (segments : List String) : Except String (List Service) :=
  .ok ((rcvr.methods.filter (·.2)).map fun m =>
    ⟨String.join ((segments ++ [m.1]).map fun s => "/" ++ lower s), rcvr.id, m.1, []⟩)

/-- The two `doRegister` answers for a path: the server's container, then the
service's. -/
structure RegisterHooks where
  server : String → Option String
  service : String → Option String

/-- The hooks of a server without plugins. -/
def RegisterHooks.none : RegisterHooks := ⟨fun _ => Option.none, fun _ => Option.none⟩

/-- The errors collected per service: `common.ErrServiceAlreadyExists.Format(spath)`
and `common.NewRPCError(err.Error())`. -/
inductive ServiceError
  | alreadyExists (path : String)
  | rpc (msg : String)
  deriving DecidableEq, Repr

/-- What `register` returns. -/
inductive RegisterError
  | checkSname (msg : String)
  | rpc (msg : String)
  | multi (errs : List ServiceError)
  deriving DecidableEq, Repr

/-- `map[string]IService` as an association list with unique keys. -/
abbrev ServiceMap := List (String × Service)

/-- `m[k] = v`. -/
def ServiceMap.set (m : ServiceMap) (k : String) (v : Service) : ServiceMap :=
  if (m.lookup k).isSome then m.map fun e => if e.1 = k then (k, v) else e else m ++ [(k, v)]

/-- The registration state of a `Server`. -/
structure Registry where
  serviceMap : ServiceMap
  routers : List String
  deriving DecidableEq, Repr

def Registry.empty : Registry := ⟨[], []⟩

section

variable (builder : Receiver → List String → Except String (List Service))

/-- One pass of `register`'s loop over the built services, with container `p`. -/
def registerOne (hooks : RegisterHooks) (p : List String)
    (acc : Registry × List ServiceError) (service : Service) : Registry × List ServiceError :=
  let spath := service.path
  let errs := if (acc.1.serviceMap.lookup spath).isSome then acc.2 ++ [.alreadyExists spath]
    else acc.2
  let errs := match hooks.server spath with
    | some e => errs ++ [.rpc e]
    | Option.none => errs
  let errs := match hooks.service spath with
    | some e => errs ++ [.rpc e]
    | Option.none => errs
  ({ routers := acc.1.routers ++ [spath],
     serviceMap := acc.1.serviceMap.set spath { service with plugins := p } }, errs)

/-- `server.register(pathSegments, rcvr, p)`. -/
def register (hooks : RegisterHooks) (server : Registry) (segments : List String)
    (rcvr : Receiver) (p : List String) : Registry × Option RegisterError :=
  match builder rcvr segments with
  | .error e => (server, some (.rpc e))
  | .ok services =>
    if services.length = 0 then
      (server, some (.rpc ("Can not register invalid service: '<" ++ rcvr.typeName ++ " Value>'")))
    else
      let acc := services.foldl (registerOne hooks p) (server, [])
      if acc.2.length > 0 then (acc.1, some (.multi acc.2))
      else ({ acc.1 with routers := acc.1.routers.insertionSort (· ≤ ·) }, Option.none)

/-- `server.RegisterName(name, rcvr)`, with `common.CheckSname` as `checkSname`. -/
def registerName (checkSname : String → Option String) (hooks : RegisterHooks)
    (server : Registry) (name : String) (rcvr : Receiver) : Registry × Option RegisterError :=
  match checkSname name with
  | some e => (server, some (.checkSname e))
  | Option.none => register builder hooks server [name] rcvr []

end

/-! ## Registering one path twice -/

/-- `Arith` with its one eligible method `Mul`, as receiver number `id`. -/
def arith (id : Nat) : Receiver := ⟨id, "*main.Arith", [("Mul", true)]⟩

/-- `RegisterName("arith", arith 1)` on an empty server without plugins. -/
def arithOnce : Registry :=
  (registerName newServices (fun _ => none) .none .empty "arith" (arith 1)).1

/-- The second `RegisterName("arith", arith 2)` reports `AlreadyExists` for
`/arith/mul`, yet rebinds the path to the new receiver's service. -/
theorem register_replaces :
    arithOnce.serviceMap.lookup "/arith/mul" = some ⟨"/arith/mul", 1, "Mul", []⟩ ∧
      (registerName newServices (fun _ => none) .none arithOnce "arith" (arith 2)).2 =
        some (.multi [.alreadyExists "/arith/mul"]) ∧
      (registerName newServices (fun _ => none) .none arithOnce "arith"
        (arith 2)).1.serviceMap.lookup "/arith/mul" = some ⟨"/arith/mul", 2, "Mul", []⟩ := by
  decide

/-- After the second registration `routers` holds `/arith/mul` twice while
`serviceMap` has it once. -/
theorem register_twice_routers :
    (registerName newServices (fun _ => none) .none arithOnce "arith" (arith 2)).1 =
      ⟨[("/arith/mul", ⟨"/arith/mul", 2, "Mul", []⟩)], ["/arith/mul", "/arith/mul"]⟩ := by
  decide

end Myrpc.Server

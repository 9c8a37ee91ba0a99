import Myrpc.Server.Registry

/-!
# Service groups and Go's `append` (`server/server.go`)

`ServiceGroup.Group` and `ServiceGroup.RegisterName` both build their segments with
`append(group.prefixes, x)`. A Go slice is a view `(array, len, cap)` of a shared
backing array, and `append` writes `x` into that array in place whenever `len < cap`.
So two appends to the same group's `prefixes` write the same cell, and a group made
earlier from that cell sees the later write.

`Slice`, `Heap` and `append` model the runtime's slices of `string`; the capacity a
full slice grows to is a parameter, and `goGrow` is the runtime's doubling for
slices below 256 elements (16-byte elements land on the allocator's size classes
there, so no rounding applies). `GroupWorld` runs any sequence of `Server.Group`,
`ServiceGroup.Group` and `ServiceGroup.RegisterName` calls and records, as ghost
state, the chain of prefixes that created each group and the segments every
registration passed to the builder.

* `sibling_overwrites_segments`: three levels down the prefixes slice has length 3 and
  capacity 4; a second child of that group overwrites the cell of the first child, whose
  `RegisterName` then passes the sibling's prefix to the builder.
-/

namespace Myrpc.Server

/-! ## Slices of strings -/

/-- A `[]string` header: its backing array (an index into the heap), length and
capacity. -/
structure Slice where
  arr : Nat
  len : Nat
  cap : Nat
  deriving DecidableEq, Repr

/-- The `nil` slice. -/
def Slice.nil : Slice := ⟨0, 0, 0⟩

/-- The backing arrays allocated so far. -/
abbrev Heap := List (List String)

/-- The elements a slice shows: the first `len` cells of its array. -/
def Slice.elems (h : Heap) (s : Slice) : List String := (h.getD s.arr []).take s.len

/-- `append(s, x)`: in place when there is spare capacity, else into a fresh array of
capacity `grow s.cap (s.len + 1)` holding a copy of the elements. -/
def append (grow : Nat → Nat → Nat) (h : Heap) (s : Slice) (x : String) : Heap × Slice :=
  if s.len < s.cap then
    (h.set s.arr ((h.getD s.arr []).set s.len x), { s with len := s.len + 1 })
  else
    let c := grow s.cap (s.len + 1)
    (h ++ [s.elems h ++ [x] ++ List.replicate (c - (s.len + 1)) ""], ⟨h.length, s.len + 1, c⟩)

/-- The runtime's growth for a slice below 256 elements: double, or the needed length
when that is more. -/
def goGrow (cap need : Nat) : Nat := max need (2 * cap)

/-! ## Groups -/

/-- A `ServiceGroup`: its `prefixes` and the names of the plugins of its container
(`none` for the container-less group that `Server.Group` starts from). -/
structure ServiceGroup where
  prefixes : Slice
  plugins : Option (List String)
  deriving DecidableEq, Repr

section

variable (builder : Receiver → List String → Except String (List Service))
  (checkSname : String → Option String)
  (add : List String → List String → Except String (List String))
  (grow : Nat → Nat → Nat)

/-- `group.Group(prefix, plugins...)`: `add p ps` is the plugin container's `p.Add(ps...)`
(the parent's plugins are added first, and that error is dropped). -/
def ServiceGroup.group (h : Heap) (g : ServiceGroup) (seg : String) (plugins : List String) :
    Except String (Heap × ServiceGroup) :=
  match checkSname seg with
  | some e => .error e
  | none =>
    let p := match g.plugins with
      | some ps => (add [] ps).toOption.getD []
      | none => []
    match add p plugins with
    | .error e => .error e
    | .ok p => .ok ((append grow h g.prefixes seg).1, ⟨(append grow h g.prefixes seg).2, some p⟩)

/-- `server.Group(prefix, plugins...)`. -/
def serverGroup (h : Heap) (seg : String) (plugins : List String) :
    Except String (Heap × ServiceGroup) :=
  ServiceGroup.group checkSname add grow h ⟨Slice.nil, none⟩ seg plugins

/-- `group.RegisterName(name, rcvr)`: the segments are `append(group.prefixes, name)`. -/
def ServiceGroup.registerName (hooks : RegisterHooks) (h : Heap) (reg : Registry)
    (g : ServiceGroup) (name : String) (rcvr : Receiver) :
    Heap × Registry × Option RegisterError × List String :=
  match checkSname name with
  | some e => (h, reg, some (.checkSname e), [])
  | none =>
    let hs := append grow h g.prefixes name
    let segments := hs.2.elems hs.1
    let r := register builder hooks reg segments rcvr (g.plugins.getD [])
    (hs.1, r.1, r.2, segments)

/-- A call on groups: `Server.Group`, `ServiceGroup.Group` on the group with handle `g`,
or `ServiceGroup.RegisterName` on it. -/
inductive GroupOp
  | serverGroup (seg : String) (plugins : List String)
  | group (g : Nat) (seg : String) (plugins : List String)
  | registerName (g : Nat) (name : String) (rcvr : Receiver) (hooks : RegisterHooks)

/-- The heap, the groups made so far (by handle), and the registry; `chains` and
`built` are ghost: the prefixes each group was made with, root first, and the
`(group, name, segments)` of every registration that reached the builder. -/
structure GroupWorld where
  heap : Heap
  groups : List ServiceGroup
  chains : List (List String)
  registry : Registry
  built : List (Nat × String × List String)

def GroupWorld.init : GroupWorld := ⟨[], [], [], .empty, []⟩

/-- One call; a call that fails, or names no group, leaves the world as it was. -/
def GroupWorld.step (w : GroupWorld) : GroupOp → GroupWorld
  | .serverGroup seg plugins =>
    match serverGroup checkSname add grow w.heap seg plugins with
    | .ok (h, g) => { w with heap := h, groups := w.groups ++ [g], chains := w.chains ++ [[seg]] }
    | .error _ => w
  | .group i seg plugins =>
    match w.groups[i]?, w.chains[i]? with
    | some g, some c =>
      match g.group checkSname add grow w.heap seg plugins with
      | .ok (h, g') =>
        { w with heap := h, groups := w.groups ++ [g'], chains := w.chains ++ [c ++ [seg]] }
      | .error _ => w
    | _, _ => w
  | .registerName i name rcvr hooks =>
    match w.groups[i]? with
    | some g =>
      match checkSname name with
      | some _ => w
      | none =>
        let r := g.registerName builder checkSname grow hooks w.heap w.registry name rcvr
        { w with heap := r.1, registry := r.2.1, built := w.built ++ [(i, name, r.2.2.2)] }
    | none => w

/-- The world after a sequence of calls. -/
def GroupWorld.run (w : GroupWorld) (ops : List GroupOp) : GroupWorld :=
  ops.foldl (GroupWorld.step builder checkSname add grow) w

end

/-! ## Siblings share a cell -/

/-- A plugin container whose `Add` appends. -/
def appendPlugins (p ps : List String) : Except String (List String) := .ok (p ++ ps)

/-- `a/b/c` three levels down, two children `d` and `e` of it, and `RegisterName` of a
service `svc` on the first child. -/
def siblingScript : List GroupOp :=
  [.serverGroup "a" [], .group 0 "b" [], .group 1 "c" [], .group 2 "d" [], .group 2 "e" [],
   .registerName 3 "svc" (arith 1) .none]

/-- The group made with the chain `a, b, c, d` registers with the segments
`a, b, c, e, svc`: its sibling `e` overwrote its last prefix. -/
theorem sibling_overwrites_segments :
    (GroupWorld.init.run newServices (fun _ => none) appendPlugins goGrow siblingScript).chains[3]? =
        some ["a", "b", "c", "d"] ∧
      (GroupWorld.init.run newServices (fun _ => none) appendPlugins goGrow siblingScript).built =
        [(3, "svc", ["a", "b", "c", "e", "svc"])] := by
  decide

end Myrpc.Server

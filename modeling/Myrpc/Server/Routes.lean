import Myrpc.Server.Group
import Myrpc.Server.Context

/-!
# What the registry serves

`register` keeps two records of a path: `serviceMap`, where `readRequestHeader` looks
the request's path up, and `routers`, what `Routers()` returns. Over every sequence of
registrations, whatever the builder, the plugins' `doRegister` answers and the order of
the calls, the two agree on the set of paths, so `Routers()` lists exactly the paths
the server dispatches.

* `Registry.Inv`, `Registry.Reachable.inv`: in every registry a server goes through,
  `serviceMap` has each path once and a path is in `routers` exactly when it is bound.
  `GroupWorld.registry_inv`: so in the registry of every run of group calls.
* `register_ok`: a registration that returns `nil` bound only fresh, distinct paths;
  each now leads to its own service, carrying the registration's plugins, every other
  path leads where it led before, and `routers` is the old list with the new paths,
  sorted.
* `routers_sorted_nodup`: while every registration succeeds, `Routers()` is sorted and
  lists each bound path once (a failed one breaks this: `register_twice_routers`).
* `readRequestHeader_dispatch`: a request that reaches the service lookup is
  dispatched, to the service bound at the path its `PostReadRequestHeader` hook left,
  exactly when `Routers()` lists that path; otherwise it fails with `can't find service`
  and the `NotFoundService` kind.
-/

namespace Myrpc.Server

/-! ## `m[k] = v` -/

theorem ServiceMap.lookup_cons (q k : String) (v : Service) (m : ServiceMap) :
    List.lookup q ((k, v) :: m) = if q = k then some v else List.lookup q m := by
  by_cases h : q = k
  · simp [List.lookup_cons, h]
  · simp only [List.lookup_cons, beq_false_of_ne h, if_neg h]

theorem ServiceMap.lookup_map_set (m : ServiceMap) (k q : String) (v : Service) :
    (m.map fun e => if e.1 = k then (k, v) else e).lookup q =
      if q = k then (if (m.lookup k).isSome then some v else none) else m.lookup q := by
  induction m with
  | nil => simp
  | cons e m ih =>
    obtain ⟨k', v'⟩ := e
    rw [List.map_cons]
    by_cases hk : k' = k
    · subst hk
      rw [if_pos rfl, lookup_cons, lookup_cons, lookup_cons, if_pos rfl]
      by_cases hq : q = k' <;> simp [hq, ih]
    · rw [if_neg hk, lookup_cons, lookup_cons, lookup_cons, if_neg (Ne.symm hk), ih]
      by_cases hq : q = k' <;> by_cases hq' : q = k <;> simp_all

theorem ServiceMap.lookup_set (m : ServiceMap) (k q : String) (v : Service) :
    (m.set k v).lookup q = if q = k then some v else m.lookup q := by
  unfold ServiceMap.set
  split
  · rename_i hk
    rw [lookup_map_set, if_pos hk]
  · rename_i hk
    rw [Option.not_isSome_iff_eq_none] at hk
    by_cases hq : q = k
    · subst hq
      simp [List.lookup_append, hk, lookup_cons]
    · simp [List.lookup_append, hq, lookup_cons]

theorem ServiceMap.mem_keys_iff (m : ServiceMap) (k : String) :
    k ∈ m.map Prod.fst ↔ (m.lookup k).isSome := by
  rw [List.lookup_isSome_iff, List.mem_map]
  constructor
  · rintro ⟨e, he, rfl⟩
    exact ⟨e, he, beq_self_eq_true _⟩
  · rintro ⟨e, he, h⟩
    exact ⟨e, he, (beq_iff_eq.mp h).symm⟩

theorem ServiceMap.keys_set (m : ServiceMap) (k : String) (v : Service) :
    (m.set k v).map Prod.fst = if k ∈ m.map Prod.fst then m.map Prod.fst else m.map Prod.fst ++ [k] := by
  unfold ServiceMap.set
  by_cases hk : k ∈ m.map Prod.fst
  · rw [if_pos ((mem_keys_iff m k).mp hk), if_pos hk, List.map_map]
    congr 1
    funext e
    by_cases h : e.1 = k <;> simp [h]
  · rw [if_neg fun h => hk ((mem_keys_iff m k).mpr h), if_neg hk, List.map_append]
    rfl

/-! ## Every registry a server goes through -/

/-- What holds of every registry: `serviceMap` has each path once, and `routers` lists
exactly the bound paths (perhaps some more than once). -/
structure Registry.Inv (r : Registry) : Prop where
  nodupKeys : (r.serviceMap.map Prod.fst).Nodup
  routers : ∀ path, path ∈ r.routers ↔ path ∈ r.serviceMap.map Prod.fst

/-- The registries a server goes through: `NewServer`'s empty one, and what a
`register` call leaves, for any builder, plugins and receiver. `Register`,
`RegisterName` and a group's `RegisterName` all end in `register` or change nothing. -/
inductive Registry.Reachable : Registry → Prop
  | empty : Registry.Reachable .empty
  | register {r : Registry} (builder : Receiver → List String → Except String (List Service))
      (hooks : RegisterHooks) (segments : List String) (rcvr : Receiver) (p : List String) :
      Registry.Reachable r → Registry.Reachable (register builder hooks r segments rcvr p).1

theorem Registry.Inv.empty : Registry.empty.Inv :=
  ⟨List.nodup_nil, fun _ => by simp [Registry.empty]⟩

theorem Registry.Inv.of_registerOne {acc : Registry × List ServiceError} (hi : acc.1.Inv)
    (hooks : RegisterHooks) (p : List String) (service : Service) :
    (registerOne hooks p acc service).1.Inv := by
  constructor
  · simp only [registerOne, ServiceMap.keys_set]
    split
    · exact hi.nodupKeys
    · exact hi.nodupKeys.append (List.nodup_singleton _) (List.disjoint_singleton.mpr ‹_›)
  · intro path
    simp only [registerOne, ServiceMap.keys_set, List.mem_append, List.mem_singleton, hi.routers]
    split <;> simp_all [or_iff_left_of_imp]

theorem Registry.Inv.of_foldl (hooks : RegisterHooks) (p : List String) :
    ∀ (services : List Service) (acc : Registry × List ServiceError), acc.1.Inv →
      (services.foldl (registerOne hooks p) acc).1.Inv
  | [], _, hi => hi
  | s :: rest, _, hi => of_foldl hooks p rest _ (hi.of_registerOne hooks p s)

theorem Registry.Inv.of_register (builder : Receiver → List String → Except String (List Service))
    {r : Registry} (hi : r.Inv) (hooks : RegisterHooks) (segments : List String) (rcvr : Receiver)
    (p : List String) : (register builder hooks r segments rcvr p).1.Inv := by
  unfold Myrpc.Server.register
  split
  · exact hi
  · split
    · exact hi
    · have hacc := Registry.Inv.of_foldl hooks p ‹_› (r, []) hi
      dsimp only
      split
      · exact hacc
      · refine ⟨hacc.nodupKeys, fun path => ?_⟩
        rw [(List.perm_insertionSort _ _).mem_iff]
        exact hacc.routers path

theorem Registry.Inv.of_reachable {r : Registry} (h : r.Reachable) : r.Inv := by
  induction h with
  | empty => exact .empty
  | register builder hooks segments rcvr p _ ih => exact ih.of_register builder hooks segments rcvr p

theorem Registry.Inv.mem_routers_iff {r : Registry} (hi : r.Inv) (path : String) :
    path ∈ r.routers ↔ (r.serviceMap.lookup path).isSome :=
  (hi.routers path).trans (ServiceMap.mem_keys_iff _ _)

/-- In every registry a server goes through, `serviceMap` has each path once and
`Routers()` lists a path exactly when it is bound. -/
theorem Registry.Reachable.inv {r : Registry} (h : r.Reachable) : r.Inv :=
  .of_reachable h

/-- The registry of every run of group calls is one a server goes through. -/
theorem GroupWorld.registry_reachable (builder : Receiver → List String → Except String (List Service))
    (checkSname : String → Option String) (add : List String → List String → Except String (List String))
    (grow : Nat → Nat → Nat) (ops : List GroupOp) :
    (GroupWorld.init.run builder checkSname add grow ops).registry.Reachable := by
  suffices ∀ w : GroupWorld, w.registry.Reachable →
      (w.run builder checkSname add grow ops).registry.Reachable from this _ .empty
  induction ops with
  | nil => exact fun _ h => h
  | cons op ops ih =>
    intro w hw
    refine ih _ ?_
    cases op with
    | serverGroup seg plugins =>
      simp only [GroupWorld.step]
      split <;> exact hw
    | group i seg plugins =>
      simp only [GroupWorld.step]
      split
      · split <;> exact hw
      · exact hw
    | registerName i name rcvr hooks =>
      simp only [GroupWorld.step]
      split
      · split
        · exact hw
        · rename_i g _ hc
          simp only [ServiceGroup.registerName, hc]
          exact .register builder hooks _ rcvr _ hw
      · exact hw

/-- In the registry of every run of group calls, `serviceMap` has each path once and
`Routers()` lists a path exactly when it is bound. -/
theorem GroupWorld.registry_inv (builder : Receiver → List String → Except String (List Service))
    (checkSname : String → Option String) (add : List String → List String → Except String (List String))
    (grow : Nat → Nat → Nat) (ops : List GroupOp) :
    (GroupWorld.init.run builder checkSname add grow ops).registry.Inv :=
  .of_reachable (registry_reachable builder checkSname add grow ops)

/-- `RegisterName("arith", Arith)` on an empty server is a registry a server goes
through. -/
theorem arithOnce_inv : arithOnce.Reachable ∧ arithOnce.Inv :=
  have h : arithOnce.Reachable := .register newServices .none ["arith"] (arith 1) [] .empty
  ⟨h, h.inv⟩

/-! ## A registration that returns `nil` -/

theorem registerOne_errs (hooks : RegisterHooks) (p : List String) (acc : Registry × List ServiceError)
    (s : Service) :
    (registerOne hooks p acc s).2 = acc.2 ++
      ((if (acc.1.serviceMap.lookup s.path).isSome then [ServiceError.alreadyExists s.path] else []) ++
        ((hooks.server s.path).map ServiceError.rpc).toList ++
        ((hooks.service s.path).map ServiceError.rpc).toList) := by
  rcases h1 : hooks.server s.path with _ | e1 <;> rcases h2 : hooks.service s.path with _ | e2 <;>
    by_cases hx : (acc.1.serviceMap.lookup s.path).isSome <;> simp [registerOne, hx, h1, h2]

theorem registerOne_lookup (hooks : RegisterHooks) (p : List String) (acc : Registry × List ServiceError)
    (s : Service) (q : String) :
    (registerOne hooks p acc s).1.serviceMap.lookup q =
      if q = s.path then some { s with plugins := p } else acc.1.serviceMap.lookup q :=
  ServiceMap.lookup_set _ _ _ _

theorem foldl_registerOne_routers (hooks : RegisterHooks) (p : List String) :
    ∀ (services : List Service) (acc : Registry × List ServiceError),
      (services.foldl (registerOne hooks p) acc).1.routers = acc.1.routers ++ services.map Service.path
  | [], _ => by simp
  | s :: rest, acc => by
    rw [List.foldl_cons, foldl_registerOne_routers hooks p rest, List.map_cons, ← List.singleton_append,
      ← List.append_assoc]
    rfl

/-- When the loop collects no error, every service it met had a fresh path of its own,
and afterwards a path leads to the service of that path, or where it led before. -/
theorem foldl_registerOne_ok (hooks : RegisterHooks) (p : List String) :
    ∀ (services : List Service) (acc : Registry × List ServiceError),
      (services.foldl (registerOne hooks p) acc).2 = [] →
      acc.2 = [] ∧ (services.map Service.path).Nodup ∧
        (∀ s ∈ services, acc.1.serviceMap.lookup s.path = none) ∧
        ∀ q, (services.foldl (registerOne hooks p) acc).1.serviceMap.lookup q =
          ((services.find? fun s => s.path = q).map fun s => { s with plugins := p }).or
            (acc.1.serviceMap.lookup q)
  | [], _, h => ⟨h, List.nodup_nil, nofun, fun q => by simp⟩
  | s :: rest, acc, h => by
    obtain ⟨h1, hnd, hfresh, hlk⟩ := foldl_registerOne_ok hooks p rest _ h
    rw [registerOne_errs, List.append_eq_nil, List.append_eq_nil, List.append_eq_nil] at h1
    obtain ⟨hacc, ⟨hex, -⟩, -⟩ := h1
    have hnone : acc.1.serviceMap.lookup s.path = none := by
      by_contra hs
      rw [if_pos (Option.ne_none_iff_isSome.mp hs)] at hex
      cases hex
    have hne : ∀ s' ∈ rest, s'.path ≠ s.path := fun s' hs' he => by
      have := hfresh s' hs'
      rw [registerOne_lookup, if_pos he] at this
      cases this
    refine ⟨hacc, ?_, ?_, fun q => ?_⟩
    · rw [List.map_cons, List.nodup_cons]
      exact ⟨fun hm => by
        obtain ⟨s', hs', he⟩ := List.mem_map.mp hm
        exact hne s' hs' he, hnd⟩
    · intro s' hs'
      rcases List.mem_cons.mp hs' with rfl | hs'
      · exact hnone
      · have := hfresh s' hs'
        rwa [registerOne_lookup, if_neg (hne s' hs')] at this
    · rw [List.foldl_cons, hlk, registerOne_lookup, List.find?_cons]
      by_cases hq : q = s.path
      · subst hq
        have : rest.find? (fun s' => s'.path = s.path) = none :=
          List.find?_eq_none.mpr fun s' hs' => by simpa using hne s' hs'
        simp [this]
      · simp [hq, Ne.symm hq]

theorem find?_path_of_nodup {services : List Service} (hnd : (services.map Service.path).Nodup)
    {s : Service} (hs : s ∈ services) : services.find? (fun s' => s'.path = s.path) = some s := by
  induction services with
  | nil => cases hs
  | cons s₀ rest ih =>
    rw [List.map_cons, List.nodup_cons] at hnd
    rw [List.find?_cons]
    rcases List.mem_cons.mp hs with rfl | hs
    · simp
    · have hne : s₀.path ≠ s.path := fun he => hnd.1 (he ▸ List.mem_map_of_mem _ hs)
      simp [hne, ih hnd.2 hs]

section

variable (builder : Receiver → List String → Except String (List Service))

/-- A registration that returns `nil` had services, and its loop collected no error: the
registry it leaves is the loop's, with `routers` sorted. -/
theorem register_eq_of_nil (hooks : RegisterHooks) (r : Registry) (segments : List String)
    (rcvr : Receiver) (p : List String) (services : List Service) (hb : builder rcvr segments = .ok services)
    (hok : (register builder hooks r segments rcvr p).2 = none) :
    services ≠ [] ∧ (services.foldl (registerOne hooks p) (r, [])).2 = [] ∧
      register builder hooks r segments rcvr p =
        ({ (services.foldl (registerOne hooks p) (r, [])).1 with
            routers := (services.foldl (registerOne hooks p) (r, [])).1.routers.insertionSort (· ≤ ·) },
          none) := by
  have hlen : services.length ≠ 0 := fun h0 => by simp [Myrpc.Server.register, hb, h0] at hok
  have herr : (services.foldl (registerOne hooks p) (r, [])).2 = [] := by
    by_contra hne
    simp [Myrpc.Server.register, hb, hlen, List.length_pos.mpr hne] at hok
  exact ⟨fun h => hlen (by simp [h]), herr, by simp [Myrpc.Server.register, hb, hlen, herr]⟩

/-- A registration that returns `nil` had services from the builder, with distinct paths
that were all free. Afterwards each path leads to its own service, with the
registration's plugins, every other path leads where it did before, and `routers` is the
old list with the new paths, sorted. -/
theorem register_ok (hooks : RegisterHooks) (r : Registry) (segments : List String) (rcvr : Receiver)
    (p : List String) (services : List Service) (hb : builder rcvr segments = .ok services)
    (hok : (register builder hooks r segments rcvr p).2 = none) :
    services ≠ [] ∧ (services.map Service.path).Nodup ∧
      (∀ s ∈ services, r.serviceMap.lookup s.path = none ∧
        (register builder hooks r segments rcvr p).1.serviceMap.lookup s.path = some { s with plugins := p }) ∧
      (∀ q, q ∉ services.map Service.path →
        (register builder hooks r segments rcvr p).1.serviceMap.lookup q = r.serviceMap.lookup q) ∧
      (register builder hooks r segments rcvr p).1.routers.Sorted (· ≤ ·) ∧
      (register builder hooks r segments rcvr p).1.routers.Perm (r.routers ++ services.map Service.path) := by
  obtain ⟨hne, herr, hres⟩ := register_eq_of_nil builder hooks r segments rcvr p services hb hok
  obtain ⟨-, hnd, hfresh, hlk⟩ := foldl_registerOne_ok hooks p services (r, []) herr
  rw [hres]
  refine ⟨hne, hnd, fun s hs => ⟨hfresh s hs, ?_⟩, fun q hq => ?_, List.sorted_insertionSort _ _, ?_⟩
  · simp [hlk, find?_path_of_nodup hnd hs]
  · have : services.find? (fun s => s.path = q) = none :=
      List.find?_eq_none.mpr fun s hs he => hq (by rw [← of_decide_eq_true he]; exact List.mem_map_of_mem _ hs)
    simp [hlk, this]
  · rw [foldl_registerOne_routers]
    exact List.perm_insertionSort _ _

end

/-- `RegisterName("arith", Arith)` on an empty server: the builder gives the one service
`/arith/mul`, and the registration returns `nil`. -/
theorem register_ok_arith :
    newServices (arith 1) ["arith"] = .ok [⟨"/arith/mul", 1, "Mul", []⟩] ∧
      (register newServices .none .empty ["arith"] (arith 1) []).2 = none ∧
      ([⟨"/arith/mul", 1, "Mul", []⟩] : List Service) ≠ [] ∧
      (([⟨"/arith/mul", 1, "Mul", []⟩] : List Service).map Service.path).Nodup := by
  have h := register_ok newServices .none .empty ["arith"] (arith 1) [] _ rfl rfl
  exact ⟨rfl, rfl, h.1, h.2.1⟩

/-! ## While every registration succeeds -/

/-- The registries a server goes through while no registration reports a `MultiError`:
each call returned `nil`, or failed before its loop. -/
inductive Registry.ReachableOk : Registry → Prop
  | empty : Registry.ReachableOk .empty
  | register {r : Registry} (builder : Receiver → List String → Except String (List Service))
      (hooks : RegisterHooks) (segments : List String) (rcvr : Receiver) (p : List String) :
      Registry.ReachableOk r → (∀ errs, (register builder hooks r segments rcvr p).2 ≠ some (.multi errs)) →
      Registry.ReachableOk (register builder hooks r segments rcvr p).1

theorem Registry.ReachableOk.reachable {r : Registry} (h : r.ReachableOk) : r.Reachable := by
  induction h with
  | empty => exact .empty
  | register builder hooks segments rcvr p _ _ ih => exact .register builder hooks segments rcvr p ih

/-- A registration without a `MultiError` changed nothing, or returned `nil`. -/
theorem register_eq_or_ok (builder : Receiver → List String → Except String (List Service))
    (hooks : RegisterHooks) (r : Registry) (segments : List String) (rcvr : Receiver) (p : List String)
    (h : ∀ errs, (register builder hooks r segments rcvr p).2 ≠ some (.multi errs)) :
    (register builder hooks r segments rcvr p).1 = r ∨
      ∃ services, builder rcvr segments = .ok services ∧ (register builder hooks r segments rcvr p).2 = none := by
  rcases hb : builder rcvr segments with e | services <;> simp only [Myrpc.Server.register, hb] at h ⊢
  · simp
  · by_cases h0 : services.length = 0
    · simp [h0]
    · by_cases he : (services.foldl (registerOne hooks p) (r, [])).2.length > 0
      · simp [h0, he] at h
      · exact .inr ⟨services, rfl, by simp [h0, he]⟩

/-- As long as no registration reports a `MultiError`, `Routers()` is sorted and lists
each registered path exactly once: a path is in it exactly when `serviceMap` binds it,
and then once. -/
theorem routers_sorted_nodup {r : Registry} (h : r.ReachableOk) :
    r.routers.Sorted (· ≤ ·) ∧ r.routers.Nodup ∧
      ∀ path, path ∈ r.routers ↔ (r.serviceMap.lookup path).isSome := by
  suffices hsn : r.routers.Sorted (· ≤ ·) ∧ r.routers.Nodup from
    ⟨hsn.1, hsn.2, (Registry.Inv.of_reachable h.reachable).mem_routers_iff⟩
  induction h with
  | empty => exact ⟨List.sorted_nil, List.nodup_nil⟩
  | @register r builder hooks segments rcvr p hr hmulti ih =>
    rcases register_eq_or_ok builder hooks r segments rcvr p hmulti with heq | ⟨services, hb, hok⟩
    · rw [heq]
      exact ih
    · obtain ⟨-, herr, hres⟩ := register_eq_of_nil builder hooks r segments rcvr p services hb hok
      obtain ⟨-, hnd, hfresh, -⟩ := foldl_registerOne_ok hooks p services (r, []) herr
      rw [hres]
      refine ⟨List.sorted_insertionSort _ _, (List.perm_insertionSort _ _).nodup_iff.mpr ?_⟩
      rw [foldl_registerOne_routers]
      refine ih.2.append hnd fun x hx hx' => ?_
      obtain ⟨s, hs, rfl⟩ := List.mem_map.mp hx'
      have := ((Registry.Inv.of_reachable hr.reachable).mem_routers_iff _).mp hx
      rw [hfresh s hs] at this
      cases this

/-- `RegisterName("arith", Arith)` on an empty server returns `nil`. -/
theorem routers_sorted_nodup_arith :
    arithOnce.ReachableOk ∧ arithOnce.routers.Sorted (· ≤ ·) ∧ arithOnce.routers.Nodup ∧
      ∀ path, path ∈ arithOnce.routers ↔ (arithOnce.serviceMap.lookup path).isSome :=
  have h0 : (register newServices .none .empty ["arith"] (arith 1) []).2 = none := rfl
  have h : arithOnce.ReachableOk :=
    .register newServices .none ["arith"] (arith 1) [] .empty fun errs => by rw [h0]; simp
  ⟨h, routers_sorted_nodup h⟩

/-! ## Dispatch -/

/-- The path `readRequestHeader` looks up: the parsed one, as the
`PostReadRequestHeader` hook leaves it (`SetPath`) when shown it with the parsed query
and the data the `PreReadRequestHeader` hook left. -/
def Script.lookupPath (sc : Script) (ctx : Context) : String :=
  (sc.hookView .postReadRequestHeader
    ⟨sc.uriParse.1, sc.uriParse.2.1, (sc.hookView .preReadRequestHeader ctx.view).data⟩).path

/-- A request whose hooks pass and whose `ServiceMethod` parses goes on to be served
exactly when `Routers()` lists the path the `PostReadRequestHeader` hook left, with the
service bound there; otherwise it fails with `can't find service` and the
`NotFoundService` kind. Reading goes on in both cases. -/
theorem readRequestHeader_dispatch {reg : Registry} (hr : reg.Reachable) (sc : Script) (ctx : Context)
    (req : Request) (hpre : sc.hook .preReadRequestHeader = none) (hread : sc.readRequestHeader = .ok req)
    (huri : sc.uriParse.2.2 = none) (hpost : sc.hook .postReadRequestHeader = none) :
    (readRequestHeader sc reg ctx).keepReading = true ∧
      (readRequestHeader sc reg ctx).ctx.path = sc.lookupPath ctx ∧
      ((readRequestHeader sc reg ctx).err = none ↔ sc.lookupPath ctx ∈ reg.routers) ∧
      (sc.lookupPath ctx ∈ reg.routers →
        (readRequestHeader sc reg ctx).ctx.service = reg.serviceMap.lookup (sc.lookupPath ctx) ∧
          (readRequestHeader sc reg ctx).ctx.service.isSome) ∧
      (sc.lookupPath ctx ∉ reg.routers →
        (readRequestHeader sc reg ctx).err = some ("can't find service '" ++ sc.lookupPath ctx ++ "'") ∧
          (readRequestHeader sc reg ctx).ctx.rpcErrorType = errorTypeServerNotFoundService) := by
  have hmem := (Registry.Inv.of_reachable hr).mem_routers_iff (sc.lookupPath ctx)
  have hpath : (runHook sc { (runHook sc ctx .preReadRequestHeader).1 with
      req := req, path := sc.uriParse.1, query := sc.uriParse.2.1 } .postReadRequestHeader).1.path =
      sc.lookupPath ctx := rfl
  simp only [readRequestHeader, hpre, hread, huri, hpost, hpath]
  rcases hl : reg.serviceMap.lookup (sc.lookupPath ctx) with _ | svc <;> simp [hmem, hl]

/-- A call parsed to `/arith/times` whose `PostReadRequestHeader` hook calls
`SetPath("/arith/mul")`, every hook passing. -/
def setPathScript : Script where
  hook _ := none
  readRequestHeader := .ok ⟨"Arith.Times", 1⟩
  uriParse := ("/arith/times", [], none)
  readRequestBody := .ok 7
  call := (42, none)
  hookView h v := if h = .postReadRequestHeader then { v with path := "/arith/mul" } else v

/-- After `RegisterName("arith", Arith)`, a request parsed to `/arith/times`, which
`Routers()` does not list, is served once its hook sets the path `/arith/mul`. -/
theorem readRequestHeader_dispatch_setPath :
    arithOnce.Reachable ∧ setPathScript.lookupPath .new = "/arith/mul" ∧
      (readRequestHeader setPathScript arithOnce .new).err = none :=
  have h : arithOnce.Reachable := .register newServices .none ["arith"] (arith 1) [] .empty
  ⟨h, rfl, (readRequestHeader_dispatch h setPathScript .new ⟨"Arith.Times", 1⟩ rfl rfl rfl rfl).2.2.1.mpr
    (by decide)⟩

end Myrpc.Server

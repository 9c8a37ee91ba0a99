import Myrpc.Server.Group

/-!
# Which segments a group registers under

`append` writes into the backing array only when the slice has room to spare, and
with Go's growth a `[]string` first has room at length 3 (capacity 4): lengths 1 and 2
grow to capacities 1 and 2. That is all the results below use of the growth (`Grows`),
so they hold for any growth that agrees there. A write in place lands at index 3 or
beyond, and the
first three cells of every array, once written, never change. Every group therefore
shows the first three prefixes of its own chain, and `RegisterName` on it passes them,
then as many more segments as the chain has, then the name, whatever other groups and
registrations came before. A group at most three prefixes deep registers under exactly
its chain; from the fourth prefix on, the cells are shared with siblings.

* `elems_append`: `append(s, x)` shows the elements of `s` followed by `x`, for any growth.
* `Shows.appended`, `Shows.frame`: what one `append` does to the slice it grows and to
  every other group's slice.
* `GroupWorld.Inv.step`: one call keeps the invariant, and `GroupWorld.Inv.run` a run.
* `registerName_segments`: in every run, a registration reached the builder with the
  first three prefixes of its group's chain, as many more segments as the chain has, and
  the name.
-/

namespace Myrpc.Server

/-! ## One `append` -/

/-- Setting a cell at or after `m` leaves the first `m` cells. -/
theorem take_set_of_le {l : List String} {m n : Nat} (x : String) (hmn : m ≤ n) :
    (l.set n x).take m = l.take m := by
  ext k : 1
  simp only [List.getElem?_take]
  split
  · exact List.getElem?_set_ne (by omega)
  · rfl

/-- After a write in place at cell `n` of array `i`, each array is as it was or has cell
`n` set. -/
theorem getD_set_cells (h : Heap) (i n j : Nat) (x : String) :
    (h.set i ((h.getD i []).set n x)).getD j [] = h.getD j [] ∨
      (h.set i ((h.getD i []).set n x)).getD j [] = (h.getD j []).set n x := by
  simp only [List.getD_eq_getElem?_getD, List.getElem?_set]
  split_ifs with hij hi
  · exact .inr (by subst hij; rfl)
  · exact .inl (by rw [List.getElem?_eq_none (by omega)])
  · exact .inl rfl

/-- The fresh array `append` adds sits at the old end of the heap. -/
theorem getD_concat_length (h : Heap) (a : List String) : (h ++ [a]).getD h.length [] = a := by
  rw [List.getD_eq_getElem?_getD, List.getElem?_concat_length, Option.getD_some]

/-- After a fresh array is added, each array is as it was, unless it did not exist. -/
theorem getD_concat_cells (h : Heap) (a : List String) (j : Nat) :
    (h ++ [a]).getD j [] = h.getD j [] ∨ h.getD j [] = [] := by
  rcases Nat.lt_or_ge j h.length with hj | hj
  · exact .inl (by simp only [List.getD_eq_getElem?_getD, List.getElem?_append_left hj])
  · exact .inr (by simp only [List.getD_eq_getElem?_getD, List.getElem?_eq_none hj, Option.getD_none])

section

variable (grow : Nat → Nat → Nat) {h : Heap} {s : Slice}

@[simp] theorem len_append (x : String) : (append grow h s x).2.len = s.len + 1 := by
  unfold append; split <;> rfl

/-- A slice with at least one cell within its array points at an array of the heap. -/
theorem arr_lt_of_cap (hc : s.cap ≤ (h.getD s.arr []).length) (hpos : 0 < s.cap) :
    s.arr < h.length := by
  by_contra hn
  rw [List.getD_eq_getElem?_getD, List.getElem?_eq_none (by omega)] at hc
  simp only [Option.getD_none, List.length_nil] at hc
  omega

/-- The array a slice grown in place points at: its old array with cell `len` set. -/
theorem getD_set_self (hc : s.cap ≤ (h.getD s.arr []).length) (hlt : s.len < s.cap) (x : String) :
    (h.set s.arr ((h.getD s.arr []).set s.len x)).getD s.arr [] = (h.getD s.arr []).set s.len x := by
  rw [List.getD_eq_getElem?_getD, List.getElem?_set_self (arr_lt_of_cap hc (by omega)),
    Option.getD_some]

/-- `append(s, x)` shows the elements of `s` followed by `x`, in place or in a fresh
array, whatever the growth. -/
theorem elems_append (hs : s.len ≤ s.cap) (hc : s.cap ≤ (h.getD s.arr []).length) (x : String) :
    (append grow h s x).2.elems (append grow h s x).1 = s.elems h ++ [x] := by
  have hlen : (List.take s.len (h.getD s.arr [])).length = s.len := by
    rw [List.length_take]; omega
  unfold append
  split
  case isTrue hlt =>
    simp only [Slice.elems, getD_set_self hc hlt]
    rw [List.set_eq_take_append_cons_drop, if_pos (by omega)]
    nth_rewrite 1 [← hlen]
    rw [List.take_append]
    rfl
  case isFalse =>
    simp only [Slice.elems, getD_concat_length]
    rw [List.take_left' (by rw [List.length_append, hlen, List.length_singleton])]

end

/-! ## A group's slice -/

/-- A group's `prefixes` slice in the heap, with chain `c`: it lies within its array, is
as long as the chain, has room to grow in place only from length 3 on, and shows the
chain's first three prefixes. -/
structure Shows (h : Heap) (s : Slice) (c : List String) : Prop where
  len_le_cap : s.len ≤ s.cap
  cap_le : s.cap ≤ (h.getD s.arr []).length
  len : s.len = c.length
  spare : s.len < s.cap → 3 ≤ s.len
  elems : (s.elems h).take 3 = c.take 3

section

variable {h : Heap} {s t : Slice} {c c' : List String}

theorem Shows.length_elems (hs : Shows h s c) : (s.elems h).length = c.length := by
  rw [Slice.elems, List.length_take, ← hs.len]; have := hs.cap_le; have := hs.len_le_cap; omega

/-- The container-less group `Server.Group` starts from. -/
theorem Shows.nil (h : Heap) : Shows h Slice.nil [] :=
  ⟨le_rfl, Nat.zero_le _, rfl, fun hlt => absurd hlt (Nat.lt_irrefl 0), rfl⟩

/-- A slice keeps what it shows in a heap whose array for it is no shorter and shows the
same first three elements. -/
theorem Shows.of_cells {h' : Heap} (ht : Shows h t c)
    (hl : (h.getD t.arr []).length ≤ (h'.getD t.arr []).length)
    (hk : (t.elems h').take 3 = (t.elems h).take 3) : Shows h' t c :=
  ⟨ht.len_le_cap, ht.cap_le.trans hl, ht.len, ht.spare, hk.trans ht.elems⟩

/-- What the segments a group registers under depend on in a growth function: a full
slice gets at least the room it needs, and full slices of lengths 0 and 1 get exactly
that room. -/
structure Grows (grow : Nat → Nat → Nat) : Prop where
  need : ∀ c, c + 1 ≤ grow c (c + 1)
  one : grow 0 1 = 1
  two : grow 1 2 = 2

theorem goGrow_grows : Grows goGrow := ⟨fun _ => le_max_left _ _, rfl, rfl⟩

/-- `append(s, x)` gives a slice with chain `c ++ [x]`. -/
theorem Shows.appended {grow : Nat → Nat → Nat} (hg : Grows grow) (hs : Shows h s c) (x : String) :
    Shows (append grow h s x).1 (append grow h s x).2 (c ++ [x]) := by
  have hlen := hs.length_elems
  have hel : ((append grow h s x).2.elems (append grow h s x).1).take 3 = (c ++ [x]).take 3 := by
    rw [elems_append grow hs.len_le_cap hs.cap_le, List.take_append_eq_append_take,
      List.take_append_eq_append_take, hs.elems, hlen]
  have hl : (append grow h s x).2.len = (c ++ [x]).length := by
    simp only [len_append, hs.len, List.length_append, List.length_singleton]
  by_cases hlt : s.len < s.cap <;> simp only [append, hlt, ↓reduceIte] at hel hl ⊢
  case pos =>
    have h3 := hs.spare hlt
    exact ⟨hlt, by rw [getD_set_self hs.cap_le hlt, List.length_set]; exact hs.cap_le, hl,
      fun _ => by dsimp only; omega, hel⟩
  case neg =>
    have hcap : s.len = s.cap := by have := hs.len_le_cap; omega
    have hneed : s.len + 1 ≤ grow s.cap (s.len + 1) := by rw [hcap]; exact hg.need s.cap
    have hspare : s.len + 1 < grow s.cap (s.len + 1) → 3 ≤ s.len + 1 := by
      rw [hcap]
      intro hlt
      rcases hc : s.cap with _ | _ | c
      · rw [hc, hg.one] at hlt; omega
      · rw [hc, hg.two] at hlt; omega
      · omega
    refine ⟨hneed, ?_, hl, hspare, hel⟩
    simp only [getD_concat_length, List.length_append, List.length_replicate,
      List.length_singleton, hlen, ← hs.len]
    omega

/-- `append` to the slice `s` of one group leaves every other group's slice showing its
chain: a fresh array touches no existing one, and a write in place lands at index 3 or
beyond. -/
theorem Shows.frame {grow : Nat → Nat → Nat} (ht : Shows h t c) (hs : Shows h s c') (x : String) :
    Shows (append grow h s x).1 t c := by
  unfold append
  split <;> dsimp only
  case isTrue hlt =>
    have h3 := hs.spare hlt
    rcases getD_set_cells h s.arr s.len t.arr x with he | he
    · exact ht.of_cells (congrArg List.length he).ge (by rw [Slice.elems, Slice.elems, he])
    · refine ht.of_cells (by rw [he, List.length_set]) ?_
      rw [Slice.elems, Slice.elems, he, List.take_take, List.take_take]
      exact take_set_of_le x (by omega)
  case isFalse =>
    generalize s.elems h ++ [x] ++ List.replicate (grow s.cap (s.len + 1) - (s.len + 1)) "" = a
    rcases getD_concat_cells h a t.arr with he | he
    · exact ht.of_cells (congrArg List.length he).ge (by rw [Slice.elems, Slice.elems, he])
    · have hcap := ht.cap_le
      rw [he, List.length_nil] at hcap
      have : t.len = 0 := by have := ht.len_le_cap; omega
      exact ht.of_cells (by rw [he]; exact Nat.zero_le _) (by rw [Slice.elems, Slice.elems, this]; rfl)

end

/-! ## The groups of a run -/

/-- `l[i]?` survives appending to `l`. -/
theorem getElem?_concat_of_some {α : Type} {l : List α} {a b : α} {i : Nat} (h : l[i]? = some a) :
    (l ++ [b])[i]? = some a := by
  obtain ⟨hi, -⟩ := List.getElem?_eq_some_iff.1 h
  rw [List.getElem?_append_left hi, h]

section

variable (builder : Receiver → List String → Except String (List Service))
  (checkSname : String → Option String)
  (add : List String → List String → Except String (List String))
  {grow : Nat → Nat → Nat} {w : GroupWorld}

/-- `ServiceGroup.Group` makes the new group's prefixes with `append`. -/
theorem ServiceGroup.group_ok {grow : Nat → Nat → Nat} {h h' : Heap} {g g' : ServiceGroup}
    {seg : String} {plugins : List String}
    (hg : g.group checkSname add grow h seg plugins = .ok (h', g')) :
    h' = (append grow h g.prefixes seg).1 ∧ g'.prefixes = (append grow h g.prefixes seg).2 := by
  unfold ServiceGroup.group at hg
  split at hg
  · cases hg
  · split at hg <;> dsimp only at hg <;> split at hg <;> cases hg <;> exact ⟨rfl, rfl⟩

/-- `RegisterName` with a valid name grows the group's prefixes by the name and passes
what they then show. -/
theorem ServiceGroup.registerName_ok {grow : Nat → Nat → Nat} {hooks : RegisterHooks} {h : Heap}
    {reg : Registry} {g : ServiceGroup} {name : String} {rcvr : Receiver}
    (hn : checkSname name = none) :
    (g.registerName builder checkSname grow hooks h reg name rcvr).1 =
        (append grow h g.prefixes name).1 ∧
      (g.registerName builder checkSname grow hooks h reg name rcvr).2.2.2 =
        (append grow h g.prefixes name).2.elems (append grow h g.prefixes name).1 := by
  simp only [ServiceGroup.registerName, hn, and_self]

/-- What holds of every world a run reaches: a chain for every group,
every group's slice shows its chain (`Shows`), and every registration that reached the
builder went through a group and passed the first three prefixes of its chain, as many
more segments as the chain has, and the name. -/
structure GroupWorld.Inv (w : GroupWorld) : Prop where
  length : w.groups.length = w.chains.length
  shows : ∀ (i : Nat) (g : ServiceGroup) (c : List String), w.groups[i]? = some g →
    w.chains[i]? = some c → Shows w.heap g.prefixes c
  built : ∀ (i : Nat) (name : String) (segs : List String), (i, name, segs) ∈ w.built →
    ∃ c, w.chains[i]? = some c ∧
      ∃ mid : List String, segs = c.take 3 ++ mid ++ [name] ∧ mid.length = c.length - 3

theorem GroupWorld.Inv.init : GroupWorld.init.Inv where
  length := rfl
  shows _ _ _ hg := by simp [GroupWorld.init] at hg
  built _ _ _ hb := by simp [GroupWorld.init] at hb

/-- The chain of a group. -/
theorem GroupWorld.Inv.chain (hw : w.Inv) {i : Nat} {g : ServiceGroup} (hg : w.groups[i]? = some g) :
    ∃ c, w.chains[i]? = some c := by
  obtain ⟨hi, -⟩ := List.getElem?_eq_some_iff.1 hg
  exact ⟨_, List.getElem?_eq_getElem (hw.length ▸ hi)⟩

/-- A world with one more group, whose slice shows its chain in a heap where every old
group's slice still shows its own. -/
theorem GroupWorld.Inv.push (hw : w.Inv) {h' : Heap} {g' : ServiceGroup} {c' : List String}
    (hold : ∀ (i : Nat) (g : ServiceGroup) (c : List String), w.groups[i]? = some g →
      w.chains[i]? = some c → Shows h' g.prefixes c)
    (hnew : Shows h' g'.prefixes c') :
    ({ w with heap := h', groups := w.groups ++ [g'], chains := w.chains ++ [c'] } :
      GroupWorld).Inv where
  length := by simp only [List.length_append, List.length_singleton, hw.length]
  shows i g c hg hc := by
    dsimp only at hg hc ⊢
    rcases Nat.lt_or_ge i w.groups.length with hi | hi
    · rw [List.getElem?_append_left hi] at hg
      rw [List.getElem?_append_left (hw.length ▸ hi)] at hc
      exact hold i g c hg hc
    · rw [List.getElem?_append_right hi] at hg
      rw [List.getElem?_append_right (hw.length ▸ hi), ← hw.length] at hc
      generalize i - w.groups.length = k at hg hc
      cases k with
      | zero => cases hg; cases hc; exact hnew
      | succ k => cases hg
  built i name segs hb := by
    obtain ⟨c, hc, hseg⟩ := hw.built i name segs hb
    exact ⟨c, getElem?_concat_of_some hc, hseg⟩

/-- A world after `RegisterName` on group `i` with a valid name: the group's prefixes
grown by the name, and the registration recorded with what they then show. -/
theorem GroupWorld.Inv.register (hw : w.Inv) {i : Nat} {g : ServiceGroup} (hg : w.groups[i]? = some g)
    (name : String) (reg : Registry) :
    ({ w with
        heap := (append grow w.heap g.prefixes name).1, registry := reg,
        built := w.built ++ [(i, name, (append grow w.heap g.prefixes name).2.elems
          (append grow w.heap g.prefixes name).1)] } : GroupWorld).Inv := by
  obtain ⟨c, hc⟩ := hw.chain hg
  have hs := hw.shows i g c hg hc
  refine ⟨hw.length, fun j t d ht hd => (hw.shows j t d ht hd).frame hs name, ?_⟩
  intro j n segs hb
  rcases List.mem_append.1 hb with hb | hb
  · exact hw.built j n segs hb
  · obtain ⟨rfl, rfl, rfl⟩ := List.mem_singleton.1 hb
    refine ⟨c, hc, _, ?_, by rw [List.length_drop, hs.length_elems]⟩
    rw [elems_append grow hs.len_le_cap hs.cap_le, ← hs.elems, List.take_append_drop]

/-- One call keeps the invariant. -/
theorem GroupWorld.Inv.step (hgrow : Grows grow) (hw : w.Inv) (op : GroupOp) :
    (w.step builder checkSname add grow op).Inv := by
  cases op with
  | serverGroup seg plugins =>
    rw [GroupWorld.step]
    split
    case h_1 h g hok =>
      obtain ⟨rfl, hp⟩ := ServiceGroup.group_ok checkSname add (g := ⟨Slice.nil, none⟩) hok
      exact hw.push (fun i t c ht hc => (hw.shows i t c ht hc).frame (Shows.nil w.heap) seg)
        (hp ▸ (Shows.nil w.heap).appended hgrow seg)
    case h_2 => exact hw
  | group i seg plugins =>
    rw [GroupWorld.step]
    split
    case h_1 g c hg hc =>
      split
      case h_1 h g' hok =>
        obtain ⟨rfl, hp⟩ := ServiceGroup.group_ok checkSname add hok
        have hs := hw.shows i g c hg hc
        exact hw.push (fun j t d ht hd => (hw.shows j t d ht hd).frame hs seg)
          (hp ▸ hs.appended hgrow seg)
      case h_2 => exact hw
    case h_2 => exact hw
  | registerName i name rcvr hooks =>
    rw [GroupWorld.step]
    split
    case h_1 g hg =>
      split
      case h_1 => exact hw
      case h_2 hn =>
        simp only [(ServiceGroup.registerName_ok builder checkSname hn).1,
          (ServiceGroup.registerName_ok builder checkSname hn).2]
        exact hw.register hg name _
    case h_2 => exact hw

/-- Every world a run reaches keeps the invariant. -/
theorem GroupWorld.Inv.run (hgrow : Grows grow) (hw : w.Inv) (ops : List GroupOp) :
    (w.run builder checkSname add grow ops).Inv := by
  induction ops generalizing w with
  | nil => exact hw
  | cons op ops ih => exact ih (hw.step builder checkSname add hgrow op)

end

/-- In every run of group calls, with Go's growth or any that agrees with it at lengths 1
and 2, a registration passed the first three prefixes of its group's chain, then as many
more segments as the chain has prefixes beyond three, then the name: a group at most
three prefixes deep registers under exactly its chain. -/
theorem registerName_segments (builder : Receiver → List String → Except String (List Service))
    (checkSname : String → Option String)
    (add : List String → List String → Except String (List String)) (grow : Nat → Nat → Nat)
    (hgrow : Grows grow) (ops : List GroupOp) (i : Nat) (name : String) (segs c : List String)
    (hb : (i, name, segs) ∈ (GroupWorld.init.run builder checkSname add grow ops).built)
    (hc : (GroupWorld.init.run builder checkSname add grow ops).chains[i]? = some c) :
    ∃ mid : List String, segs = c.take 3 ++ mid ++ [name] ∧ mid.length = c.length - 3 := by
  obtain ⟨c', hc', hseg⟩ :=
    (GroupWorld.Inv.run builder checkSname add hgrow GroupWorld.Inv.init ops).built i name segs hb
  cases hc.symm.trans hc'
  exact hseg

/-- `a/b/c` three levels down, two children `d` and `e` of it, `RegisterName` of `svc` on
`a/b/c`, and of `svc2` on its child `a/b/c/d`. -/
def childrenThenRegister : List GroupOp :=
  [.serverGroup "a" [], .group 0 "b" [], .group 1 "c" [], .group 2 "d" [], .group 2 "e" [],
   .registerName 2 "svc" (arith 1) .none, .registerName 3 "svc2" (arith 1) .none]

/-- The registration through `a/b/c/d` passes `a, b, c, svc, svc2`: its parent's own
registration wrote the fourth cell last. -/
theorem registerName_segments_after_children :
    Grows goGrow ∧ (3, "svc2", ["a", "b", "c", "svc", "svc2"]) ∈ (GroupWorld.init.run newServices
        (fun _ => none) appendPlugins goGrow childrenThenRegister).built ∧
      (GroupWorld.init.run newServices (fun _ => none) appendPlugins goGrow
        childrenThenRegister).chains[3]? = some ["a", "b", "c", "d"] ∧
      ∃ mid : List String,
        ["a", "b", "c", "svc", "svc2"] = ["a", "b", "c", "d"].take 3 ++ mid ++ ["svc2"] ∧
          mid.length = ["a", "b", "c", "d"].length - 3 :=
  have hb : (3, "svc2", ["a", "b", "c", "svc", "svc2"]) ∈ (GroupWorld.init.run newServices
      (fun _ => none) appendPlugins goGrow childrenThenRegister).built := by
    decide
  have hc : (GroupWorld.init.run newServices (fun _ => none) appendPlugins goGrow
      childrenThenRegister).chains[3]? = some ["a", "b", "c", "d"] := by
    decide
  ⟨goGrow_grows, hb, hc, registerName_segments newServices (fun _ => none) appendPlugins goGrow
    goGrow_grows childrenThenRegister 3 "svc2" _ _ hb hc⟩

end Myrpc.Server

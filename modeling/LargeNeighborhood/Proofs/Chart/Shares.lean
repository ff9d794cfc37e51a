import LargeNeighborhood.Chart.Shares
import LargeNeighborhood.Proofs.Search.ExactWeights
import Mathlib

set_option autoImplicit false

/-! # The table of a run's weights

The snapshots of a run list the same operators, at one iteration after the other
(`Snapshot.Listed`). So the table of the weights has one row for each operator of each snapshot,
which can be told from the snapshot alone (`Snapshot.row`): no row is lost, none is there twice, and
each weight is divided by the weights of its own pool in its own snapshot
(`Snapshot.Listed.exists_tabled`). With exact numbers the shares of a pool add up to one
(`Shares.table_of_run`).

The table has columns of its own, which is why no operator may be called `iteration` or `weight`.
-/

namespace LargeNeighborhood

variable {σ κ ω γ π ν : Type}

/-! ## What a snapshot says -/

/-- The weights of one pool. -/
def Snapshot.weights (x : Snapshot ν) : Role → List (String × ν)
  | .destroy => x.destroy
  | .repair => x.repair

namespace Shares

/-- Names that are no columns of the table. -/
def Unreserved (names : List String) : Prop := "iteration" ∉ names ∧ "weight" ∉ names

variable [Scalar ν]

/-- A number, unless it is undefined. -/
def defined? (x : ν) : Option ν := (some x).filter fun x => !decide (Scalar.undefined x)

/-- The weights of a pool added up, those that are undefined left out. -/
def sumOf (s : Weights ν) : ν := compensatedSum (s.filterMap fun entry => defined? entry.2)

end Shares

/-- The row of an operator in the table. -/
def Snapshot.row [Scalar ν] (x : Snapshot ν) (role : Role) (entry : String × ν) : ShareRow ν where
  iteration := .whole x.iteration
  operator := entry.1
  weight := Shares.defined? entry.2
  share := (Shares.defined? entry.2).map (· / Shares.sumOf (x.weights role))
  pool := role

/-- The row that is found by the name of an operator. -/
def Snapshot.rowNamed [Scalar ν] (x : Snapshot ν) (role : Role) (name : String) : ShareRow ν where
  iteration := .whole x.iteration
  operator := name
  weight := Shares.weight? (x.weights role) name
  share := (Shares.weight? (x.weights role) name).map (· / Shares.sumOf (x.weights role))
  pool := role

/-- What a row is about: a pool, an iteration and an operator. -/
def ShareRow.key (row : ShareRow ν) : Role × Quantity × String :=
  (row.pool, row.iteration, row.operator)

/-! ## The snapshots of a run -/

/-- Snapshots that all list the operators of the given names, at one iteration after the other. -/
structure Snapshot.Listed (names : Role → List String) (xs : List (Snapshot ν)) : Prop where
  names : ∀ x ∈ xs, ∀ role, (x.weights role).map Prod.fst = names role
  increasing : (xs.map Snapshot.iteration).Pairwise (· < ·)

theorem Snapshot.Listed.concat {names : Role → List String} {xs : List (Snapshot ν)}
    {x : Snapshot ν} (h : Listed names xs) (hx : ∀ role, (x.weights role).map Prod.fst = names role)
    (hlater : ∀ x' ∈ xs, x'.iteration < x.iteration) : Listed names (xs ++ [x]) where
  names := by
    intro x' hx' role
    rcases List.mem_append.mp hx' with hx' | hx'
    · exact h.names x' hx' role
    · rw [List.mem_singleton.mp hx']
      exact hx role
  increasing := by
    rw [List.map_append, List.pairwise_append]
    refine ⟨h.increasing, List.pairwise_singleton _ _, ?_⟩
    intro i hi j hj
    obtain ⟨x', hx', rfl⟩ := List.mem_map.mp hi
    rw [List.mem_singleton.mp hj]
    exact hlater x' hx'

theorem Pool.fst_weights {τ β : Type} (p : Pool ν τ β) : (weights p).map Prod.fst = names p := by
  unfold weights names
  rw [List.map_map]
  rfl

/-- A snapshot of a selector shows the weights of its pools. -/
theorem Snapshot.weights_mk {τ β : Type} (i : Nat) (a : Selector ν τ β) (role : Role) :
    Snapshot.weights ⟨i, Pool.weights a.destroyers, Pool.weights a.repairers⟩ role =
      Pool.weights (a.pool role) := by
  cases role <;> rfl

/-- The snapshots of a course list the operators that it has started with. -/
theorem Course.listed [BEq κ] [Scalar ν] {s : Setting σ κ ω γ π ν} {first w : Walk σ κ ω γ π ν}
    {done : List (Stage σ κ ω γ π ν)} (h : Course s first done w) (htrace : first.trace = .empty) :
    Snapshot.Listed (fun role => Pool.names (first.selector.pool role)) w.trace.snapshots.toList ∧
      ∀ x ∈ w.trace.snapshots.toList, x.iteration ≤ done.length := by
  induction h with
  | start =>
      rw [htrace]
      exact ⟨⟨fun x hx => absurd hx List.not_mem_nil, List.Pairwise.nil⟩,
        fun x hx => absurd hx List.not_mem_nil⟩
  | @step done w st h hst ih =>
      obtain ⟨hlisted, hbound⟩ := ih
      obtain ⟨hbefore, hsound⟩ := Walk.stage_ok hst
      have hnames : ∀ role, Pool.names (st.after.selector.pool role) =
          Pool.names (first.selector.pool role) := by
        intro role
        have hidentities : st.after.selector.identities role = first.selector.identities role := by
          rw [hsound.identities_eq, hbefore, h.identities_eq]
        rw [Pool.names_eq, Pool.names_eq]
        exact congrArg _ hidentities
      have hlength : (done ++ [st]).length = done.length + 1 := List.length_append
      -- a snapshot that is taken is of an iteration behind all those listed: this is what the bound
      -- is for
      rw [hsound.snapshots, hbefore, hlength]
      split
      · rw [Array.toList_push]
        constructor
        · refine hlisted.concat ?_ fun x hx => Nat.lt_succ_of_le (hbound x hx)
          intro role
          rw [Snapshot.weights_mk, Pool.fst_weights, hnames]
        · intro x hx
          rcases List.mem_append.mp hx with hx | hx
          · exact (hbound x hx).trans (Nat.le_succ _)
          · rw [List.mem_singleton.mp hx]
      · exact ⟨hlisted, fun x hx => (hbound x hx).trans (Nat.le_succ _)⟩

/-! ## The table of one pool -/

namespace Shares

theorem eraseDups_eq_self {α : Type} [BEq α] [LawfulBEq α] : ∀ {xs : List α}, xs.Nodup →
    xs.eraseDups = xs
  | [], _ => rfl
  | x :: xs, h => by
      have hne : ∀ y ∈ xs, (!y == x) = true := by
        intro y hy
        have hyx : y ≠ x := by
          intro heq
          exact (List.nodup_cons.mp h).1 (heq ▸ hy)
        simpa using hyx
      rw [List.eraseDups_cons, List.filter_eq_self.mpr hne,
        eraseDups_eq_self (List.nodup_cons.mp h).2]

/-- Snapshots of the same operators are about no others. -/
theorem names_eq {snapshots : List (Weights ν)} {ns : List String}
    (h : ∀ s ∈ snapshots, s.map Prod.fst = ns) (hns : ns.Nodup) (hne : snapshots ≠ []) :
    names snapshots = ns := by
  obtain ⟨s, rest, rfl⟩ := List.exists_cons_of_ne_nil hne
  have hnone : (rest.flatMap fun s => s.map Prod.fst).removeAll ns = [] := by
    unfold List.removeAll
    rw [List.filter_eq_nil_iff]
    intro name hname
    obtain ⟨s', hs', hname⟩ := List.mem_flatMap.mp hname
    rw [h s' (List.mem_cons_of_mem s hs')] at hname
    simpa using hname
  unfold names
  rw [List.flatMap_cons, h s List.mem_cons_self, List.eraseDups_append, hnone,
    eraseDups_eq_self hns, List.eraseDups_nil, List.append_nil]

theorem lookup_of_mem {α β : Type} [BEq α] [LawfulBEq α] {xs : List (α × β)}
    (hxs : (xs.map Prod.fst).Nodup) {entry : α × β} (h : entry ∈ xs) :
    xs.lookup entry.1 = some entry.2 := by
  obtain ⟨before, behind, rfl⟩ := List.append_of_mem h
  rw [List.lookup_eq_some_iff]
  refine ⟨before, behind, rfl, ?_⟩
  intro p hp
  rw [List.map_append, List.nodup_append] at hxs
  have hne : p.1 ≠ entry.1 := hxs.2.2 p.1 (List.mem_map_of_mem hp) entry.1 (by simp)
  simpa using hne.symm

variable [Scalar ν]

/-- Whether the last or the first entry of a name counts, makes no difference if there is one. -/
theorem weight?_eq {s : Weights ν} (hs : (s.map Prod.fst).Nodup) {entry : String × ν}
    (h : entry ∈ s) : weight? s entry.1 = defined? entry.2 := by
  have hreverse : (s.reverse.map Prod.fst).Nodup := by
    rw [List.map_reverse]
    exact List.nodup_reverse.mpr hs
  unfold weight? defined?
  rw [lookup_of_mem hreverse (List.mem_reverse.mpr h)]

/-- Whole numbers stay whole. -/
theorem iterations_whole (ns : List Nat) :
    iterations (ns.map fun (n : Nat) => Quantity.whole n) = ns.map fun (n : Nat) => .whole n := by
  have hwhole : (ns.map fun (n : Nat) => Quantity.whole n).all Quantity.isWhole = true := by
    rw [List.all_map, List.all_eq_true]
    intro n _
    rfl
  simp only [iterations, hwhole, Bool.or_true, if_true]

end Shares

/-- A table can be read by rows or by columns. -/
theorem flatMap_map_perm {α β δ : Type} (xs : List α) (ys : List β) (f : α → β → δ) :
    (ys.flatMap fun y => xs.map fun x => f x y).Perm (xs.flatMap fun x => ys.map (f x)) := by
  rw [← Multiset.coe_eq_coe, ← Multiset.coe_bind, ← Multiset.coe_bind]
  exact Multiset.bind_map_comm (ys : Multiset β) (xs : Multiset α)

theorem flatMap_ite {α β : Type} (xs : List α) (p : α → Bool) (f : α → List β) :
    (xs.flatMap fun x => if p x then f x else []) = (xs.filter p).flatMap f := by
  induction xs with
  | nil => rfl
  | cons x xs ih =>
      rw [List.flatMap_cons, ih, List.filter_cons]
      split <;> rfl

namespace Snapshot.Listed

variable {names : Role → List String} {xs : List (Snapshot ν)}

theorem nodup (h : Listed names xs) : (xs.map Snapshot.iteration).Nodup :=
  h.increasing.imp fun hlt => Nat.ne_of_lt hlt

/-- No other snapshot has the iteration of a given one. -/
theorem filter_same (h : Listed names xs) {α : Type} (f : Snapshot ν → α) {x : Snapshot ν}
    (hx : x ∈ xs) :
    ((xs.map fun x => (Quantity.whole x.iteration, f x)).filter
      fun row => row.1.same (.whole x.iteration)) = [(.whole x.iteration, f x)] := by
  have hsame : ∀ y : Snapshot ν, (Quantity.whole y.iteration).same (.whole x.iteration) =
      decide (y.iteration = x.iteration) := by
    intro y
    rw [Bool.eq_iff_iff, Quantity.same_whole_whole, decide_eq_true_iff, Int.natCast_inj]
  rw [List.filter_map]
  simp only [Function.comp_def, hsame]
  rw [filter_key_eq h.nodup hx, List.map_singleton]

/-- The table shows the operators that the snapshots list. -/
theorem operators_eq (h : Listed names xs) (hne : xs ≠ []) {role : Role}
    (hnames : (names role).Nodup) (hfree : Shares.Unreserved (names role)) :
    Shares.operators (xs.map fun x => x.weights role) = names role := by
  have hsame : ∀ s ∈ xs.map (fun x => x.weights role), s.map Prod.fst = names role := by
    intro s hs
    obtain ⟨x, hx, rfl⟩ := List.mem_map.mp hs
    exact h.names x hx role
  unfold Shares.operators
  rw [Shares.names_eq hsame hnames (mt List.map_eq_nil_iff.mp hne), List.filter_eq_self]
  intro name hname
  have hother : name ≠ "iteration" := by
    intro heq
    exact hfree.1 (heq ▸ hname)
  simpa using hother

variable [Scalar ν]

/-- What the table divides by is the sum of the pool in the snapshot at hand. -/
theorem total_eq (h : Listed names xs) (hnames : ∀ role, (names role).Nodup) {x : Snapshot ν}
    (hx : x ∈ xs) (role : Role) :
    Shares.total (names role) (xs.map fun x => (.whole x.iteration, x.weights role))
      (.whole x.iteration) = Shares.sumOf (x.weights role) := by
  have hentries : (x.weights role).map Prod.fst = names role := h.names x hx role
  have hdefined : (names role).flatMap (fun name =>
      [x.weights role].filterMap fun s => Shares.weight? s name) =
      (x.weights role).filterMap fun entry => Shares.defined? entry.2 := by
    rw [← hentries, List.flatMap_map, List.filterMap_eq_flatMap_toList]
    apply List.flatMap_congr
    intro entry hentry
    rw [← Shares.weight?_eq (hentries ▸ hnames role) hentry, List.filterMap_cons]
    cases Shares.weight? (x.weights role) entry.1 <;> rfl
  unfold Shares.total Shares.sumOf
  dsimp only
  rw [h.filter_same _ hx, List.map_singleton, hdefined]

theorem row_eq_rowNamed (h : Listed names xs) (hnames : ∀ role, (names role).Nodup)
    {x : Snapshot ν} (hx : x ∈ xs) (role : Role) {entry : String × ν}
    (hentry : entry ∈ x.weights role) : x.row role entry = x.rowNamed role entry.1 := by
  have hnodup : ((x.weights role).map Prod.fst).Nodup := by
    rw [h.names x hx role]
    exact hnames role
  unfold row rowNamed
  rw [Shares.weight?_eq hnodup hentry]

/-- The table of one pool goes by operator and then by snapshot. Told snapshot by snapshot, it has the
row of each operator in each of them. -/
theorem poolTable_eq (h : Listed names xs) (hnames : ∀ role, (names role).Nodup) (hne : xs ≠ [])
    (role : Role) (hfree : Shares.Unreserved (names role)) :
    ∃ rows, Shares.poolTable role (xs.map fun x => .whole x.iteration)
        (xs.map fun x => x.weights role) = .ok rows ∧
      rows.Perm (xs.flatMap fun x => (x.weights role).map (x.row role)) := by
  have hlength : (xs.map fun x => x.weights role).length =
      (xs.map fun x => Quantity.whole x.iteration).length := by
    rw [List.length_map, List.length_map]
  have hwhole : Shares.iterations (xs.map fun x => Quantity.whole x.iteration) =
      xs.map fun x => Quantity.whole x.iteration := by
    have hlist := Shares.iterations_whole (xs.map Snapshot.iteration)
    rwa [List.map_map] at hlist
  unfold Shares.poolTable
  rw [h.operators_eq hne (hnames role) hfree, hwhole, List.zip_map', if_neg (by simp [hlength]), if_neg hfree.2]
  refine ⟨_, rfl, ?_⟩
  -- What the table computes for a name and a snapshot is the row found by that name.
  have hrow : ∀ name, ∀ x ∈ xs, ({
      iteration := .whole x.iteration
      operator := name
      weight := Shares.weight? (x.weights role) name
      pool := role
      share := if (Quantity.whole x.iteration).same (.whole x.iteration) then
          (Shares.weight? (x.weights role) name).map
            (· / Shares.total (names role) (xs.map fun x => (.whole x.iteration, x.weights role))
              (.whole x.iteration))
        else none } : ShareRow ν) = x.rowNamed role name := by
    intro name x hx
    rw [h.total_eq hnames hx role, if_pos (Quantity.same_whole_whole _ _ |>.mpr rfl)]
    rfl
  simp only [List.map_map, Function.comp_def]
  rw [List.flatMap_congr fun name _ => List.map_congr_left (hrow name)]
  have hnamed : ∀ x ∈ xs, (x.weights role).map (x.row role) =
      (names role).map (x.rowNamed role) := by
    intro x hx
    rw [← h.names x hx role, List.map_map]
    exact List.map_congr_left fun entry hentry => h.row_eq_rowNamed hnames hx role hentry
  rw [List.flatMap_congr hnamed]
  exact flatMap_map_perm xs (names role) fun x name => x.rowNamed role name

end Snapshot.Listed

/-! ## The table of a run -/

/-- The rows of a table: for each pool, snapshot and operator one row, which can be told from the
snapshot alone. -/
structure Trace.Tabled [Scalar ν] (names : Role → List String) (t : Trace ν π)
    (rows : List (ShareRow ν)) : Prop where
  table : Shares.table t.weightColumns = .ok rows
  listed : Snapshot.Listed names t.snapshots.toList
  perm : rows.Perm ([Role.destroy, .repair].flatMap fun role =>
    t.snapshots.toList.flatMap fun x => (x.weights role).map (x.row role))
  keys : (rows.map ShareRow.key).Nodup

namespace Snapshot.Listed

variable [Scalar ν] {names : Role → List String} {xs : List (Snapshot ν)}

/-- The rows of a pool, told snapshot by snapshot, are about each of its operators at each
iteration, in this order. -/
theorem map_key (h : Listed names xs) (role : Role) :
    (xs.flatMap fun x => (x.weights role).map (x.row role)).map ShareRow.key =
      (xs.map Snapshot.iteration).flatMap fun (i : Nat) =>
        (names role).map fun name => (role, Quantity.whole i, name) := by
  rw [List.map_flatMap, List.flatMap_map]
  apply List.flatMap_congr
  intro x hx
  rw [← h.names x hx role, List.map_map, List.map_map]
  rfl

/-- No two rows of a pool are about the same operator at the same iteration, if its operators have
names of their own. -/
theorem nodup_map_key (h : Listed names xs) {role : Role} (hnames : (names role).Nodup) :
    ((xs.flatMap fun x => (x.weights role).map (x.row role)).map ShareRow.key).Nodup := by
  rw [h.map_key, List.nodup_flatMap]
  constructor
  · intro i _
    exact hnames.map fun a b heq => by simpa using heq
  · refine h.nodup.imp ?_
    intro i j hne key hi hj
    obtain ⟨name, -, rfl⟩ := List.mem_map.mp hi
    obtain ⟨name', -, heq⟩ := List.mem_map.mp hj
    injection heq with _ heq
    injection heq with heq _
    injection heq with heq
    exact hne (Int.natCast_inj.mp heq).symm

/-- No two rows of the table are about the same operator of the same pool at the same iteration. -/
theorem keys_nodup (h : Listed names xs) (hnames : ∀ role, (names role).Nodup) :
    (([Role.destroy, .repair].flatMap fun role =>
      xs.flatMap fun x => (x.weights role).map (x.row role)).map ShareRow.key).Nodup := by
  simp only [List.flatMap_cons, List.flatMap_nil, List.append_nil, List.map_append]
  rw [List.nodup_append]
  refine ⟨h.nodup_map_key (hnames .destroy), h.nodup_map_key (hnames .repair), ?_⟩
  -- Rows of different pools differ in the pool.
  intro key hdestroy key' hrepair heq
  rw [h.map_key] at hdestroy hrepair
  obtain ⟨i, -, hi⟩ := List.mem_flatMap.mp hdestroy
  obtain ⟨j, -, hj⟩ := List.mem_flatMap.mp hrepair
  obtain ⟨name, -, rfl⟩ := List.mem_map.mp hi
  obtain ⟨name', -, rfl⟩ := List.mem_map.mp hj
  injection heq with heq _
  cases heq

theorem exists_tabled {t : Trace ν π} (h : Listed names t.snapshots.toList)
    (hnames : ∀ role, (names role).Nodup) (hne : t.snapshots ≠ #[])
    (hfree : ∀ role, Shares.Unreserved (names role)) : ∃ rows, t.Tabled names rows := by
  have hne' : t.snapshots.toList ≠ [] := mt Array.toList_eq_nil_iff.mp hne
  obtain ⟨destroy, hdestroy, hdestroyed⟩ := h.poolTable_eq hnames hne' .destroy (hfree .destroy)
  obtain ⟨repair, hrepair, hrepaired⟩ := h.poolTable_eq hnames hne' .repair (hfree .repair)
  have hperm : (destroy ++ repair).Perm ([Role.destroy, .repair].flatMap fun role =>
      t.snapshots.toList.flatMap fun x => (x.weights role).map (x.row role)) := by
    simpa using hdestroyed.append hrepaired
  refine ⟨destroy ++ repair, ?_, h, hperm, ?_⟩
  · have hfirst : Shares.poolTable .destroy (t.snapshots.toList.map fun s => .whole s.iteration)
        (t.snapshots.toList.map Snapshot.destroy) = .ok destroy := hdestroy
    have hsecond : Shares.poolTable .repair (t.snapshots.toList.map fun s => .whole s.iteration)
        (t.snapshots.toList.map Snapshot.repair) = .ok repair := hrepair
    simp only [Shares.table, Trace.weightColumns, column, bind, Except.bind, hfirst, hsecond]
    rfl
  · exact (hperm.map ShareRow.key).nodup_iff.mpr (h.keys_nodup hnames)

end Snapshot.Listed

/-! ## Exact shares -/

namespace Shares

/-- Exact additions lose nothing that would have to be taken off. -/
theorem compensatedSum_rat (xs : List ℚ) : compensatedSum xs = xs.sum := by
  -- with exact numbers nothing is lost, and the correction stays at zero
  have hfold : ∀ sum : ℚ, (xs.foldl (fun (p : ℚ × ℚ) x =>
      let y := x - p.2
      let next := p.1 + y
      let lost := next - p.1 - y
      (next, if Scalar.undefined lost then Scalar.zero else lost)) (sum, 0)) = (sum + xs.sum, 0) := by
    induction xs with
    | nil => simp
    | cons x xs ih =>
        intro sum
        have hlost : sum + (x - 0) - sum - (x - 0) = 0 := by ring
        have hstep : ((sum + (x - 0), if Scalar.undefined (sum + (x - 0) - sum - (x - 0)) then
            Scalar.zero else sum + (x - 0) - sum - (x - 0)) : ℚ × ℚ) = (sum + x, 0) := by
          rw [hlost, Scalar.zero_rat, ite_self, sub_zero]
        rw [List.foldl_cons, hstep, ih, List.sum_cons, add_assoc]
  unfold compensatedSum
  rw [Scalar.zero_rat]
  exact (congrArg Prod.fst (hfold 0)).trans (zero_add _)

theorem defined?_rat (x : ℚ) : defined? x = some x := by
  simp [defined?, Scalar.undefined, Option.filter]

theorem sumOf_rat (s : Weights ℚ) : sumOf s = (s.map Prod.snd).sum := by
  unfold sumOf
  simp only [defined?_rat]
  rw [compensatedSum_rat, List.filterMap_eq_map']

/-- What is divided by its sum adds up to one. -/
theorem sum_shares {xs : List ℚ} (h : 0 < xs.sum) : (xs.map (· / xs.sum)).sum = 1 := by
  have hdiv : (xs.map (· / xs.sum)).sum = xs.sum * (xs.sum)⁻¹ := by
    simp only [div_eq_mul_inv]
    rw [List.sum_map_mul_right, List.map_id']
  rw [hdiv]
  exact mul_inv_cancel₀ h.ne'

end Shares

/-- The shares in the rows of a pool at an iteration. -/
def ShareRow.sharesAt (role : Role) (i : Nat) (rows : List (ShareRow ν)) : List ν :=
  (rows.filter fun row => row.pool = role ∧ row.iteration.same (.whole i)).filterMap ShareRow.share

namespace Snapshot

theorem share_rat (x : Snapshot ℚ) (role : Role) (entry : String × ℚ) :
    (x.row role entry).share = some (entry.2 / ((x.weights role).map Prod.snd).sum) := by
  unfold row
  dsimp only
  rw [Shares.defined?_rat, Shares.sumOf_rat]
  rfl

/-- Told snapshot by snapshot, the rows of a pool at an iteration stand together. -/
theorem Listed.filter_rows [Scalar ν] {names : Role → List String} {xs : List (Snapshot ν)}
    (h : Listed names xs) {x : Snapshot ν} (hx : x ∈ xs) (role : Role) :
    (([Role.destroy, .repair].flatMap fun role =>
      xs.flatMap fun x => (x.weights role).map (x.row role)).filter fun row =>
        row.pool = role ∧ row.iteration.same (.whole x.iteration)) =
      (x.weights role).map (x.row role) := by
  -- of a snapshot of another iteration, and of the other pool, the filter leaves nothing
  have hother : ∀ (y : Snapshot ν) (role' : Role), ((y.weights role').map (y.row role')).filter
      (fun row => row.pool = role ∧ row.iteration.same (.whole x.iteration)) =
        if role' = role ∧ y.iteration = x.iteration then (y.weights role').map (y.row role')
        else [] := by
    intro y role'
    have hkey : ∀ entry, ((y.row role' entry).pool = role ∧
        (y.row role' entry).iteration.same (.whole x.iteration)) ↔
          role' = role ∧ y.iteration = x.iteration := by
      intro entry
      exact and_congr_right fun _ => Quantity.same_whole_whole _ _ |>.trans Int.natCast_inj
    rw [List.filter_map]
    simp only [Function.comp_def, hkey]
    split
    · simp [*]
    · simp [*]
  -- and only one snapshot is of this iteration
  have halone : (xs.flatMap fun y => if y.iteration = x.iteration then
      (y.weights role).map (y.row role) else []) = (x.weights role).map (x.row role) := by
    have hfilter := flatMap_ite xs (fun y => decide (y.iteration = x.iteration))
      fun y => (y.weights role).map (y.row role)
    simp only [decide_eq_true_eq] at hfilter
    rw [hfilter, filter_key_eq h.nodup hx, List.flatMap_singleton]
  have hnone : (xs.flatMap fun _ => ([] : List (ShareRow ν))) = [] :=
    List.flatMap_eq_nil_iff.mpr fun _ _ => rfl
  rw [List.filter_flatMap]
  simp only [List.filter_flatMap, hother]
  cases role <;> simpa [hnone] using halone

end Snapshot

namespace Trace.Tabled

variable {names : Role → List String} {t : Trace ℚ π} {rows : List (ShareRow ℚ)}

/-- With exact numbers every row has a share. -/
theorem share_isSome (h : t.Tabled names rows) : ∀ row ∈ rows, row.share.isSome := by
  intro row hrow
  obtain ⟨role, -, hrow⟩ := List.mem_flatMap.mp (h.perm.mem_iff.mp hrow)
  obtain ⟨x, -, hrow⟩ := List.mem_flatMap.mp hrow
  obtain ⟨entry, -, rfl⟩ := List.mem_map.mp hrow
  rw [Snapshot.share_rat]
  rfl

/-- Where the weights of a pool do not cancel out, its shares add up to one. -/
theorem sum_sharesAt (h : t.Tabled names rows) {x : Snapshot ℚ} (hx : x ∈ t.snapshots.toList)
    {role : Role} (hpos : 0 < ((x.weights role).map Prod.snd).sum) :
    (ShareRow.sharesAt role x.iteration rows).sum = 1 := by
  have hshares : (ShareRow.sharesAt role x.iteration rows).Perm
      (((x.weights role).map Prod.snd).map (· / ((x.weights role).map Prod.snd).sum)) := by
    have hperm := (h.perm.filter fun row =>
      row.pool = role ∧ row.iteration.same (.whole x.iteration)).filterMap ShareRow.share
    rw [h.listed.filter_rows hx role, List.filterMap_map] at hperm
    simp only [Function.comp_def, Snapshot.share_rat, List.filterMap_eq_map'] at hperm
    rwa [List.map_map]
  rw [hshares.sum_eq, Shares.sum_shares hpos]

end Trace.Tabled

/-! ## Positive weights -/

/-- An operator with a positive weight and a score of at least one. -/
structure Operator.Positive {β : Type} (op : Operator ℚ Nat β) : Prop where
  weight : 0 < op.weight
  score : 1 ≤ op.score

/-- A blend of two positive numbers by a share is positive. -/
theorem Operator.Positive.closed {β : Type} {op : Operator ℚ Nat β} (h : op.Positive)
    {reaction : ℚ} (h0 : 0 ≤ reaction) (h1 : reaction ≤ 1) : (op.closed reaction).Positive where
  weight := by
    have hweight := h.weight
    have hscore := h.score
    unfold Operator.closed
    dsimp only
    split
    · rename_i hused
      have hshare : 0 < op.score / (op.timesUsed : ℚ) :=
        div_pos (by linarith) (by exact_mod_cast hused)
      show 0 < (1 - reaction) * op.weight + reaction * (op.score / (op.timesUsed : ℚ))
      -- by a reaction of zero the weight stays, by any other the share adds to it
      rcases eq_or_lt_of_le h0 with rfl | hpos
      · simpa using hweight
      · have hkept : 0 ≤ (1 - reaction) * op.weight := mul_nonneg (by linarith) hweight.le
        have hearned := mul_pos hpos hshare
        linarith
    · exact hweight
  score := le_refl (1 : ℚ)

/-- A walk with exact numbers at the start of a run, whatever closes a segment: rewards are not
negative, the reaction is a share, and the operators that have been registered start over with equal
weights. -/
structure Walk.Equipped (s : Setting σ κ ω γ π ℚ) (reaction : ℚ)
    (roster : Role → Pool ℚ Nat (Action σ ω)) (first : Walk σ κ ω γ π ℚ) : Prop where
  rewards : s.rewards.Nonneg
  low : 0 ≤ reaction
  high : reaction ≤ 1
  labelled : ∀ role, (roster role).Labelled
  nonempty : ∀ role, roster role ≠ []
  selector : first.selector = Selector.reset ⟨roster .destroy, roster .repair, reaction⟩
  trace : first.trace = .empty

theorem Walk.ExactStart.equipped {s : Setting σ κ ω γ π ℚ} {L : Nat} {reaction : ℚ}
    {roster : Role → Pool ℚ Nat (Action σ ω)} {first : Walk σ κ ω γ π ℚ}
    (h : first.ExactStart s L reaction roster) : first.Equipped s reaction roster :=
  ⟨h.rewards, h.low, h.high, h.labelled, h.nonempty, h.selector, h.trace⟩

namespace Walk.Equipped

variable {s : Setting σ κ ω γ π ℚ} {reaction : ℚ} {roster : Role → Pool ℚ Nat (Action σ ω)}
  {first : Walk σ κ ω γ π ℚ}

theorem names_eq (h : first.Equipped s reaction roster) (role : Role) :
    Pool.names (first.selector.pool role) = Pool.names (roster role) := by
  have hidentities : Pool.identities (first.selector.pool role) = Pool.identities (roster role) := by
    rw [h.selector]
    cases role <;> exact Pool.identities_reset _
  rw [Pool.names_eq, Pool.names_eq, hidentities]

theorem positive (h : first.Equipped s reaction roster) :
    first.selector.All Operator.Positive := by
  rw [h.selector]
  intro role op hop
  obtain ⟨hweight, hscore, -⟩ : op.weight = 1 ∧ op.score = 1 ∧ op.timesUsed = 0 := by
    cases role <;> exact Pool.fresh_of_mem_reset hop
  exact ⟨by rw [hweight]; norm_num, hscore.ge⟩

end Walk.Equipped

namespace Stage.Sound

variable [BEq κ] {s : Setting σ κ ω γ π ℚ} {i : Nat} {st : Stage σ κ ω γ π ℚ}

/-- An iteration keeps weights positive. -/
theorem positive (h : st.Sound s i) (hrewards : s.rewards.Nonneg)
    (h0 : 0 ≤ st.before.selector.reaction) (h1 : st.before.selector.reaction ≤ 1)
    (hbefore : st.before.selector.All Operator.Positive) :
    st.after.selector.All Operator.Positive := by
  obtain ⟨j, k, -, -, hselector⟩ := h.drawn
  have hearned : 0 ≤ st.verdict.score s.rewards := (hrewards.score_bounds st.verdict).1
  have hcredited : (st.credited s j k).All Operator.Positive := by
    refine Stage.all_credited hbefore (fun _ hop => hop) (fun _ hop => ⟨hop.weight, hop.score⟩) ?_ j k
    intro op hop
    have hscore := hop.score
    exact ⟨hop.weight, by linarith⟩
  rw [hselector]
  split
  · exact hcredited.adapt fun op hop => hop.closed h0 h1
  · exact hcredited

end Stage.Sound

/-- The weights in the snapshots of a course are positive. -/
theorem Course.positive [BEq κ] {s : Setting σ κ ω γ π ℚ} {first w : Walk σ κ ω γ π ℚ}
    {done : List (Stage σ κ ω γ π ℚ)} {reaction : ℚ} {roster : Role → Pool ℚ Nat (Action σ ω)}
    (h : Course s first done w) (hfirst : first.Equipped s reaction roster) :
    w.selector.reaction = reaction ∧ w.selector.All Operator.Positive ∧
      ∀ x ∈ w.trace.snapshots.toList, ∀ role, ∀ entry ∈ x.weights role, 0 < entry.2 := by
  induction h with
  | start =>
      rw [hfirst.trace]
      refine ⟨by rw [hfirst.selector]; rfl, hfirst.positive, ?_⟩
      exact fun x hx => absurd hx List.not_mem_nil
  | @step done w st h hst ih =>
      obtain ⟨hbefore, hsound⟩ := Walk.stage_ok hst
      obtain ⟨hreaction, hpositive, hsnapshots⟩ := ih
      rw [← hbefore] at hreaction hpositive hsnapshots
      have hafter := hsound.positive hfirst.rewards (hreaction ▸ hfirst.low)
        (hreaction ▸ hfirst.high) hpositive
      refine ⟨hsound.reaction_eq.trans hreaction, hafter, hsound.forall_snapshots hsnapshots ?_⟩
      intro role entry hentry
      rw [Snapshot.weights_mk] at hentry
      obtain ⟨op, hop, rfl⟩ := List.mem_map.mp hentry
      exact (hafter role op hop).weight

/-! ## Runs -/

namespace Shares

/-- If no operator is called like a column of the table, the table of a completed run that has
closed a segment has one row for each pool, snapshot and operator, with the weight in that snapshot,
and with its share of the weights of that pool in that snapshot. With exact numbers, and whatever
closes a segment, the shares of a pool at the end of a segment add up to one. -/
theorem table_of_run [BEq κ] :
    (∀ {s : Solver σ κ ω γ π} {initial : σ} {r : Request} {gauge : γ} {world : ω} {best : Rated σ},
      s.Built → (s.run initial r gauge world).result = .ok best →
      (s.run initial r gauge world).solver.trace.snapshots ≠ #[] →
      (∀ role, Unreserved (Pool.names (s.selector.pool role))) →
      ∃ rows, (s.run initial r gauge world).solver.trace.Tabled
        (fun role => Pool.names (s.selector.pool role)) rows) ∧
    ∀ {s : Setting σ κ ω γ π ℚ} {first w : Walk σ κ ω γ π ℚ} {reaction : ℚ}
      {roster : Role → Pool ℚ Nat (Action σ ω)} {n : Nat},
      first.Equipped s reaction roster → Walk.run s n first = .ok w → w.trace.snapshots ≠ #[] →
      (∀ role, Unreserved (Pool.names (roster role))) →
      ∃ rows, w.trace.Tabled (fun role => Pool.names (roster role)) rows ∧
        (∀ row ∈ rows, row.share.isSome) ∧
        ∀ x ∈ w.trace.snapshots.toList, ∀ role,
          (ShareRow.sharesAt role x.iteration rows).sum = 1 := by
  constructor
  · intro s initial r gauge world best hbuilt hrun hne hfree
    obtain ⟨setting, first, last, n, h⟩ := Solver.run_ok hrun
    have hnames : ∀ role, Pool.names (first.selector.pool role) =
        Pool.names (s.selector.pool role) := by
      intro role
      rw [Pool.names_eq, Pool.names_eq]
      exact congrArg _ (h.toEmbarked.identities_eq role)
    obtain ⟨hlisted, -⟩ := h.course.listed h.trace
    simp only [hnames] at hlisted
    rw [h.recorded] at hne ⊢
    exact hlisted.exists_tabled (fun role => (hbuilt.labelled role).names) hne hfree
  · intro s first w reaction roster n hfirst hrun hne hfree
    obtain ⟨hcourse, -⟩ := Walk.course_of_run .start n hrun
    obtain ⟨hlisted, -⟩ := hcourse.listed hfirst.trace
    simp only [hfirst.names_eq] at hlisted
    obtain ⟨-, -, hpositive⟩ := hcourse.positive hfirst
    obtain ⟨rows, hrows⟩ := hlisted.exists_tabled (fun role => (hfirst.labelled role).names) hne hfree
    refine ⟨rows, hrows, hrows.share_isSome, ?_⟩
    intro x hx role
    apply hrows.sum_sharesAt hx
    apply List.sum_pos
    · intro weight hweight
      obtain ⟨entry, hentry, rfl⟩ := List.mem_map.mp hweight
      exact hpositive x hx role entry hentry
    · -- A pool that has operators has weights.
      intro hnil
      have hentries := hlisted.names x hx role
      rw [List.map_eq_nil_iff.mp hnil] at hentries
      exact hfirst.nonempty role (List.map_eq_nil_iff.mp hentries.symm)

open Solver Walk in
/-- Two destroy operators of one title and one repair operator: three rows for each of the two
segments, with their shares. -/
theorem table_of_run_manned :
    let run := manned.run 80 fourIterations [true, true, false, true] [52, 71, 33, 25]
    (∃ rows, run.solver.trace.Tabled (fun role => Pool.names (manned.selector.pool role)) rows ∧
      rows.map (fun row => (row.operator, row.weight, row.share)) =
        [("read", some 2.5, some 0.625), ("read", some 2.75, some 0.5),
          ("read_1", some 1.5, some 0.375), ("read_1", some 2.75, some 0.5),
          ("keep", some 1.75, some 1), ("keep", some 2.375, some 1)]) ∧
      ∃ w rows, Walk.run exactSetting 4 exactFirst = .ok w ∧
        w.trace.Tabled (fun role => Pool.names (exactRoster role)) rows ∧
        (ShareRow.sharesAt .destroy 2 rows).sum = 1 ∧ (ShareRow.sharesAt .repair 4 rows).sum = 1 := by
  have hunreserved : ∀ role, Unreserved (Pool.names (manned.selector.pool role)) := by
    intro role
    cases role <;> exact ⟨by decide, by decide⟩
  have hunreserved' : ∀ role, Unreserved (Pool.names (exactRoster role)) := by
    intro role
    cases role <;> exact ⟨by decide, by decide⟩
  have hrun : (manned.run 80 fourIterations [true, true, false, true] [52, 71, 33, 25]).result =
      .ok ⟨25, .whole 2⟩ := by
    decide +kernel
  have hiterations : (Walk.run exactSetting 4 exactFirst).map (fun w =>
      w.trace.snapshots.toList.map Snapshot.iteration) = .ok [2, 4] := by
    decide +kernel
  have hshown : (Shares.table (manned.run 80 fourIterations [true, true, false, true]
      [52, 71, 33, 25]).solver.trace.weightColumns).map
        (List.map fun row => (row.operator, row.weight, row.share)) =
      .ok [("read", some 2.5, some 0.625), ("read", some 2.75, some 0.5),
        ("read_1", some 1.5, some 0.375), ("read_1", some 2.75, some 0.5),
        ("keep", some 1.75, some 1), ("keep", some 2.375, some 1)] := by
    decide +kernel
  constructor
  · obtain ⟨rows, hrows⟩ := table_of_run.1 built_manned hrun (by decide +kernel) hunreserved
    refine ⟨rows, hrows, ?_⟩
    rw [hrows.table] at hshown
    exact Except.ok.inj hshown
  · obtain ⟨w, hwalk, hsnapshots⟩ := map_eq_ok.mp hiterations
    have hne : w.trace.snapshots ≠ #[] := by
      intro hnil
      rw [hnil] at hsnapshots
      cases hsnapshots
    obtain ⟨rows, hrows, -, hsums⟩ :=
      table_of_run.2 exactStart_exactFirst.equipped hwalk hne hunreserved'
    have hsum : ∀ i ∈ [2, 4], ∀ role, (ShareRow.sharesAt role i rows).sum = 1 := by
      rw [← hsnapshots]
      intro i hi role
      obtain ⟨x, hx, rfl⟩ := List.mem_map.mp hi
      exact hsums x hx role
    exact ⟨w, rows, hwalk, hrows, hsum 2 (by simp) .destroy, hsum 4 (by simp) .repair⟩

open Solver in
/-- The solver with two destroy operators, the first of them of a given title. -/
def christened (title : String) : Solver Nat Nat (List Nat) (List Bool) Unit :=
  let first := Pool.newOperator [] title reading
  { unmanned with
    selector :=
      { unmanned.selector with
        destroyers := [first, Pool.newOperator [first] "read" reading]
        repairers := [Pool.newOperator [] "keep" keeping] } }

open Solver in
theorem built_christened (title : String) : (christened title).Built := by
  have hfirst := built_unmanned.register
    (show unmanned.register .destroy (titled title reading) none = .ok (_, _) from rfl)
  have hsecond := hfirst.register
    (show register _ .destroy (titled "read" reading) none = .ok (_, _) from rfl)
  exact hsecond.register
    (show register _ .repair (titled "keep" keeping) none = .ok (_, christened title) from rfl)

/-- Four iterations in two segments, in both of which the first operator is used. -/
def christenedRun (title : String) : Outcome Nat Nat (List Nat) (List Bool) Unit :=
  (christened title).run 80 Solver.fourIterations [true, true, false, true] [52, 71, 33, 25]

/-- An operator called `iteration` takes part in a run like any other, but the table of the run has
no row for it, and one called `weight` leaves no table at all. -/
theorem table_of_run_reserved :
    ((christened "iteration").Built ∧ (christenedRun "iteration").result = .ok ⟨25, .whole 2⟩ ∧
      (christenedRun "iteration").solver.trace.snapshots.toList.map Snapshot.destroy =
        [[("iteration", 2.5), ("read", 1.5)], [("iteration", 2.75), ("read", 2.75)]] ∧
      ¬ ∃ rows, table (christenedRun "iteration").solver.trace.weightColumns = .ok rows ∧
        "iteration" ∈ rows.map ShareRow.operator) ∧
    (christened "weight").Built ∧ (christenedRun "weight").result = .ok ⟨25, .whole 2⟩ ∧
      ¬ ∃ rows, table (christenedRun "weight").solver.trace.weightColumns = .ok rows := by
  have hshown : (table (christenedRun "iteration").solver.trace.weightColumns).map
      (List.map ShareRow.operator) = .ok ["read", "read", "keep", "keep"] := by
    decide +kernel
  have hrefused : (table (christenedRun "weight").solver.trace.weightColumns).toOption.isNone := by
    decide +kernel
  refine ⟨⟨built_christened _, by decide +kernel, by decide +kernel, ?_⟩, built_christened _,
    by decide +kernel, ?_⟩
  · rintro ⟨rows, hrows, hmem⟩
    rw [hrows] at hshown
    rw [Except.ok.inj hshown] at hmem
    exact absurd hmem (by decide)
  · rintro ⟨rows, hrows⟩
    rw [hrows] at hrefused
    cases hrefused

end Shares

end LargeNeighborhood

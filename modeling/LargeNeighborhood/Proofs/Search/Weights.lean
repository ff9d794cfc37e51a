import LargeNeighborhood.Proofs.Search.Registration

set_option autoImplicit false

/-! # The weights as the history accounts for them

The selector counts uses and adds up scores as the iterations go, and forgets both at the end of
every segment; the history keeps one row for each iteration. The two agree: whatever the selector
holds can be told from the rows alone. The rows of the segment that is open account for the uses
and the score of an operator, the rows of the segments before it for its weight, one segment after
the other from a weight of one on (`weightAt`). So do the snapshots (`Walk.Accounted`,
`Solver.run_weights_accounted`).

A row names its operators, whereas the selector credits them by their index. Here it matters that
pools are labelled: a name stands for one operator, and its index is its position.
-/

namespace LargeNeighborhood

variable {σ κ ω γ π ν β : Type}

theorem Quantity.divides_whole (d n : Nat) :
    (Quantity.whole d).divides n = decide (d ∣ n) := by
  unfold divides
  dsimp only
  rw [decide_eq_decide, ← Int.dvd_iff_emod_eq_zero, Int.natCast_dvd_natCast]

/-! ## Accounts -/

/-- The operator of one kind that a row names. -/
def Entry.operator (e : Entry ν π) : Role → String
  | .destroy => e.destroyer
  | .repair => e.repairer

/-- The scores, in their order, of the rows that name an operator. -/
def scoresOf (role : Role) (name : String) (rows : List (Entry ν π)) : List ν :=
  (rows.filter fun e => e.operator role == name).map Entry.score

/-- The rows of segment `k`, counted from zero, when a segment has `L` rows. -/
def segment {α : Type} (L k : Nat) (rows : List α) : List α := (rows.drop (k * L)).take L

variable [Scalar ν]

/-- The weight behind a segment in which an operator has had some scores. Without any it is the
weight in front of it; otherwise it is blended with what one and the scores make for each use. -/
def reweigh (reaction weight : ν) : List ν → ν
  | [] => weight
  | scores@(_ :: _) => (Scalar.ofNat 1 - reaction) * weight +
      reaction * (scores.foldl (· + ·) Scalar.one / Scalar.ofNat scores.length)

/-- The weight of an operator when `k` segments are over. -/
def weightAt (reaction : ν) (role : Role) (name : String) (L : Nat) (rows : List (Entry ν π)) :
    Nat → ν
  | 0 => Scalar.one
  | k + 1 => reweigh reaction (weightAt reaction role name L rows k)
      (scoresOf role name (segment L k rows))

/-- An operator with the numbers that the rows account for when `k` segments are over. -/
def Operator.accounted (reaction : ν) (role : Role) (L : Nat) (rows : List (Entry ν π)) (k : Nat)
    (op : Operator ν Nat β) : Operator ν Nat β :=
  { op with
    weight := weightAt reaction role op.name L rows k
    score := (scoresOf role op.name (segment L k rows)).foldl (· + ·) Scalar.one
    timesUsed := (scoresOf role op.name (segment L k rows)).length }

/-- The snapshot that the rows account for at the end of segment `k`, counted from one. -/
def Snapshot.accounted (reaction : ν) (names : Role → List String) (L : Nat)
    (rows : List (Entry ν π)) (k : Nat) : Snapshot ν where
  iteration := k * L
  destroy := (names .destroy).map fun name => (name, weightAt reaction .destroy name L rows k)
  repair := (names .repair).map fun name => (name, weightAt reaction .repair name L rows k)

/-! ## Segments -/

section Segments

variable {α : Type} {L k : Nat} {rows : List α}

theorem segment_eq_nil (h : rows.length ≤ k * L) : segment L k rows = [] := by
  unfold segment
  rw [List.drop_eq_nil_of_le h, List.take_nil]

/-- A segment that is over does not change any more. -/
theorem segment_append (h : (k + 1) * L ≤ rows.length) (more : List α) :
    segment L k (rows ++ more) = segment L k rows := by
  rw [Nat.add_mul, Nat.one_mul] at h
  have hdrop : (rows.drop (k * L)).length = rows.length - k * L := List.length_drop
  unfold segment
  rw [List.drop_append_of_le_length (by omega), List.take_append_of_le_length (by omega)]

/-- A row goes to the segment that is open. -/
theorem segment_snoc (hL : 0 < L) (row : α) :
    segment L (rows.length / L) (rows ++ [row]) = segment L (rows.length / L) rows ++ [row] := by
  have hle : rows.length / L * L ≤ rows.length := Nat.div_mul_le_self rows.length L
  have hroom : rows.length - rows.length / L * L < L := by
    rw [← Nat.mod_eq_sub_div_mul]
    exact Nat.mod_lt rows.length hL
  have hdrop : (rows.drop (rows.length / L * L)).length = rows.length - rows.length / L * L :=
    List.length_drop
  have hmore : (rows.drop (rows.length / L * L) ++ [row]).length ≤ L := by
    rw [List.length_append, hdrop, List.length_singleton]
    omega
  unfold segment
  rw [List.drop_append_of_le_length hle, List.take_of_length_le hmore,
    List.take_of_length_le (by omega)]

end Segments

/-! ## Weights and scores -/

omit [Scalar ν] in
theorem scoresOf_snoc (role : Role) (name : String) (rows : List (Entry ν π)) (e : Entry ν π) :
    scoresOf role name (rows ++ [e]) =
      scoresOf role name rows ++ if e.operator role = name then [e.score] else [] := by
  unfold scoresOf
  rw [List.filter_append, List.map_append]
  by_cases h : e.operator role = name
  · simp [h]
  · simp [h]

variable {reaction : ν} {role : Role} {L k : Nat} {rows : List (Entry ν π)}

theorem reweigh_eq (weight : ν) (scores : List ν) : reweigh reaction weight scores =
    if 0 < scores.length then
      Pool.blend reaction weight (scores.foldl (· + ·) Scalar.one) scores.length
    else weight := by
  cases scores with
  | nil => rfl
  | cons score scores =>
      rw [List.length_cons, if_pos scores.length.succ_pos]
      rfl

/-- Further rows leave the weights behind earlier segments alone. -/
theorem weightAt_append (name : String) (h : k * L ≤ rows.length) (more : List (Entry ν π)) :
    weightAt reaction role name L (rows ++ more) k = weightAt reaction role name L rows k := by
  induction k with
  | zero => rfl
  | succ k ih =>
      have hk : k * L ≤ rows.length := Nat.le_trans (Nat.mul_le_mul_right L k.le_succ) h
      rw [weightAt, weightAt, ih hk, segment_append h]

/-- Further rows leave the snapshots at the ends of earlier segments alone. -/
theorem Snapshot.map_accounted_append (names : Role → List String) (more : List (Entry ν π)) :
    (List.range' 1 (rows.length / L)).map (accounted reaction names L (rows ++ more)) =
      (List.range' 1 (rows.length / L)).map (accounted reaction names L rows) := by
  apply List.map_congr_left
  intro k hk
  have hk' : k ≤ rows.length / L := by
    rw [List.mem_range'_1] at hk
    omega
  have hle : k * L ≤ rows.length := by
    calc k * L ≤ rows.length / L * L := Nat.mul_le_mul_right L hk'
      _ ≤ rows.length := Nat.div_mul_le_self rows.length L
  simp only [accounted, weightAt_append _ hle]

/-! ## Operators -/

namespace Operator

/-- An operator after an iteration with a given row, which may have used it. -/
def noted (role : Role) (e : Entry ν π) (op : Operator ν Nat β) : Operator ν Nat β :=
  if e.operator role = op.name then
    { op with score := op.score + e.score, timesUsed := op.timesUsed + 1 }
  else op

theorem noted_accounted (hL : 0 < L) (e : Entry ν π) (op : Operator ν Nat β) :
    (op.accounted reaction role L rows (rows.length / L)).noted role e =
      op.accounted reaction role L (rows ++ [e]) (rows.length / L) := by
  have hweight : weightAt reaction role op.name L (rows ++ [e]) (rows.length / L) =
      weightAt reaction role op.name L rows (rows.length / L) :=
    weightAt_append op.name (Nat.div_mul_le_self rows.length L) [e]
  unfold noted accounted
  rw [segment_snoc hL, scoresOf_snoc, hweight]
  by_cases h : e.operator role = op.name
  · simp [h, List.foldl_append]
  · simp [h]

end Operator

namespace Pool

variable {p : Pool ν Nat β}

/-- What a pool does in an iteration, told by the name in the row. -/
theorem credit_use (hp : Labelled p) {i : Nat} {op : Operator ν Nat β} (hop : p[i]? = some op)
    {e : Entry ν π} (he : e.operator role = op.name) :
    credit (use p i) op.index e.score = p.map (Operator.noted role e) := by
  rw [hp.index_eq hop]
  unfold credit use
  apply List.ext_getElem?
  intro k
  rw [List.getElem?_modify, List.getElem?_modify, List.getElem?_map]
  cases hk : p[k]? with
  | none => rfl
  | some op' =>
      have hname := hp.name_eq_iff hop hk
      -- names are distinct, so a row names the operator of one place only
      by_cases hik : i = k
      · have hnamed : e.operator role = op'.name := he.trans (hname.mpr hik.symm).symm
        simp only [hik, if_true, Option.map_eq_map, Option.map_some, Operator.noted, hnamed]
        rfl
      · have hnamed : e.operator role ≠ op'.name := by
          rw [he]
          exact fun h => hik (hname.mp h.symm).symm
        simp only [hik, if_false, Option.map_eq_map, Option.map_some, Operator.noted, hnamed]

theorem map_noted_accounted (hL : 0 < L) (e : Entry ν π) :
    (p.map (Operator.accounted reaction role L rows (rows.length / L))).map
        (Operator.noted role e) =
      p.map (Operator.accounted reaction role L (rows ++ [e]) (rows.length / L)) := by
  rw [List.map_map]
  apply List.map_congr_left
  intro op _
  exact Operator.noted_accounted hL e op

/-- At the end of a segment its rows have been accounted for. -/
theorem restart_adapt_accounted (h : rows.length ≤ (k + 1) * L) :
    restart (adapt reaction (p.map (Operator.accounted reaction role L rows k))) =
      p.map (Operator.accounted reaction role L rows (k + 1)) := by
  unfold restart adapt
  rw [List.map_map, List.map_map]
  apply List.map_congr_left
  intro op _
  -- there are no rows of the next segment yet
  have hopen : scoresOf role op.name (segment L (k + 1) rows) = [] := by
    rw [segment_eq_nil h]
    rfl
  simp only [Function.comp_apply, Operator.accounted, hopen, weightAt, reweigh_eq]
  by_cases hused : 0 < (scoresOf role op.name (segment L k rows)).length
  · have hpositive : Tally.isPositive ν (scoresOf role op.name (segment L k rows)).length = true :=
      decide_eq_true hused
    rw [if_pos hused, if_pos hpositive]
    rfl
  · have hpositive :
        ¬ Tally.isPositive ν (scoresOf role op.name (segment L k rows)).length = true := by
      intro h
      exact hused (of_decide_eq_true h)
    rw [if_neg hused, if_neg hpositive]
    rfl

theorem reset_eq : reset p =
    p.map (Operator.accounted reaction role L ([] : List (Entry ν π)) 0) := by
  unfold reset restart
  rw [List.map_map]
  apply List.map_congr_left
  intro op _
  have hnone : scoresOf role op.name (segment L 0 ([] : List (Entry ν π))) = [] := by
    rw [segment_eq_nil (Nat.zero_le _)]
    rfl
  rw [Operator.accounted, hnone]
  rfl

theorem weights_accounted : weights (p.map (Operator.accounted reaction role L rows k)) =
    (names p).map fun name => (name, weightAt reaction role name L rows k) := by
  unfold weights names
  rw [List.map_map, List.map_map]
  rfl

end Pool

/-! ## Stages -/

/-- What an iteration makes of a labelled pool can be told from its row. -/
theorem Stage.Sound.pool_eq [BEq κ] {s : Setting σ κ ω γ π ν} {i : Nat} {st : Stage σ κ ω γ π ν}
    (h : st.Sound s i) (role : Role) (hlabelled : (st.before.selector.pool role).Labelled) :
    st.after.selector.pool role =
      let noted := (st.before.selector.pool role).map (Operator.noted role st.entry)
      if s.closes i then Pool.restart (Pool.adapt st.before.selector.reaction noted)
      else noted := by
  obtain ⟨j, k, hdestroyer, hrepairer, hselector⟩ := h.drawn
  have hscore : st.verdict.score s.rewards = st.entry.score := by rw [h.entry]
  -- operators are used and credited by their places, a row knows them by their names
  have hcredited : (st.credited s j k).pool role =
      (st.before.selector.pool role).map (Operator.noted role st.entry) := by
    cases role with
    | destroy =>
        have he : st.entry.operator .destroy = st.turn.destroyer.name := by
          rw [h.entry]
          rfl
        rw [← Pool.credit_use hlabelled hdestroyer he, ← hscore]
        rfl
    | repair =>
        have he : st.entry.operator .repair = st.turn.repairer.name := by
          rw [h.entry]
          rfl
        rw [← Pool.credit_use hlabelled hrepairer he, ← hscore]
        rfl
  dsimp only
  rw [hselector, ← hcredited]
  split
  · cases role <;> rfl
  · rfl

theorem Stage.Sound.reaction_eq [BEq κ] {s : Setting σ κ ω γ π ν} {i : Nat}
    {st : Stage σ κ ω γ π ν} (h : st.Sound s i) :
    st.after.selector.reaction = st.before.selector.reaction := by
  obtain ⟨j, k, -, -, hselector⟩ := h.drawn
  rw [hselector]
  split <;> rfl

/-- A walk whose selector and snapshots are what the rows so far account for. The roster lists the
operators that the walk has started with. -/
structure Walk.Accounted (L : Nat) (reaction : ν) (roster : Role → Pool ν Nat (Action σ ω))
    (rows : List (Entry ν π)) (w : Walk σ κ ω γ π ν) : Prop where
  reaction_eq : w.selector.reaction = reaction
  pool : ∀ role, w.selector.pool role =
    (roster role).map (Operator.accounted reaction role L rows (rows.length / L))
  snapshots : w.trace.snapshots.toList = (List.range' 1 (rows.length / L)).map
    (Snapshot.accounted reaction (fun role => Pool.names (roster role)) L rows)

namespace Walk.Accounted

variable {roster : Role → Pool ν Nat (Action σ ω)} {w : Walk σ κ ω γ π ν}

theorem identities_eq (h : Accounted L reaction roster rows w) (role : Role) :
    w.selector.identities role = Pool.identities (roster role) := by
  unfold Selector.identities
  rw [h.pool role, Pool.identities_map]
  intro op
  rfl

section Step

variable {s : Setting σ κ ω γ π ν} {st : Stage σ κ ω γ π ν}

/-- A row is noted by the operators it names. -/
theorem map_noted (hL : 0 < L) (h : Accounted L reaction roster rows st.before) (role : Role) :
    (st.before.selector.pool role).map (Operator.noted role st.entry) = (roster role).map
      (Operator.accounted reaction role L (rows ++ [st.entry]) (rows.length / L)) := by
  rw [h.pool role, Pool.map_noted_accounted hL]

variable [BEq κ]

/-- Behind an iteration that ends a segment, the rows with its own added account for the walk. -/
theorem step_closed (hL : 0 < L) (hcloses : s.closes (rows.length + 1) = true)
    (hroster : ∀ role, (roster role).Labelled) (hend : L ∣ rows.length + 1)
    (h : Accounted L reaction roster rows st.before) (hst : st.Sound s (rows.length + 1)) :
    Accounted L reaction roster (rows ++ [st.entry]) st.after := by
  have hlength : (rows ++ [st.entry]).length = rows.length + 1 := by
    rw [List.length_append, List.length_singleton]
  have hdiv : (rows.length + 1) / L = rows.length / L + 1 := Nat.succ_div_of_dvd hend
  have hmul : (rows.length / L + 1) * L = rows.length + 1 := by
    rw [← hdiv]
    exact Nat.div_mul_cancel hend
  have hpool : ∀ role, st.after.selector.pool role = (roster role).map
      (Operator.accounted reaction role L (rows ++ [st.entry]) (rows.length / L + 1)) := by
    intro role
    rw [hst.pool_eq role ((hroster role).congr (h.identities_eq role)), hcloses, h.reaction_eq]
    dsimp only
    rw [if_pos rfl, h.map_noted hL, Pool.restart_adapt_accounted]
    rw [hlength, hmul]
  refine ⟨hst.reaction_eq.trans h.reaction_eq, ?_, ?_⟩
  · intro role
    rw [hlength, hdiv]
    exact hpool role
  · -- One snapshot more, with the weights that the segment has led to.
    rw [hlength, hdiv, List.range'_1_concat, List.map_append, Snapshot.map_accounted_append,
      ← h.snapshots, hst.snapshots, hcloses, if_pos rfl, Array.toList_push]
    have hdestroy : Pool.weights st.after.selector.destroyers = _ :=
      (congrArg Pool.weights (hpool .destroy)).trans Pool.weights_accounted
    have hrepair : Pool.weights st.after.selector.repairers = _ :=
      (congrArg Pool.weights (hpool .repair)).trans Pool.weights_accounted
    rw [hdestroy, hrepair, List.map_singleton, Nat.add_comm 1, Snapshot.accounted, hmul]

/-- Behind an iteration within a segment, the rows with its own added account for the walk. -/
theorem step_open (hL : 0 < L) (hcloses : s.closes (rows.length + 1) = false)
    (hroster : ∀ role, (roster role).Labelled) (hend : ¬ L ∣ rows.length + 1)
    (h : Accounted L reaction roster rows st.before) (hst : st.Sound s (rows.length + 1)) :
    Accounted L reaction roster (rows ++ [st.entry]) st.after := by
  have hlength : (rows ++ [st.entry]).length = rows.length + 1 := by
    rw [List.length_append, List.length_singleton]
  have hdiv : (rows.length + 1) / L = rows.length / L := Nat.succ_div_of_not_dvd hend
  refine ⟨hst.reaction_eq.trans h.reaction_eq, ?_, ?_⟩
  · intro role
    rw [hst.pool_eq role ((hroster role).congr (h.identities_eq role)), hcloses, hlength, hdiv]
    exact h.map_noted hL role
  · rw [hlength, hdiv, Snapshot.map_accounted_append, ← h.snapshots, hst.snapshots, hcloses]
    rfl

theorem step (hL : 0 < L) (hcloses : ∀ i, s.closes i = decide (L ∣ i))
    (hroster : ∀ role, (roster role).Labelled) (h : Accounted L reaction roster rows st.before)
    (hst : st.Sound s (rows.length + 1)) :
    Accounted L reaction roster (rows ++ [st.entry]) st.after := by
  by_cases hend : L ∣ rows.length + 1
  · exact h.step_closed hL ((hcloses _).trans (decide_eq_true hend)) hroster hend hst
  · exact h.step_open hL ((hcloses _).trans (decide_eq_false hend)) hroster hend hst

end Step

end Walk.Accounted

/-- At the end of a course the rows of its stages account for the selector and the snapshots. -/
theorem Course.accounted [BEq κ] {s : Setting σ κ ω γ π ν} {first w : Walk σ κ ω γ π ν}
    {done : List (Stage σ κ ω γ π ν)} {roster : Role → Pool ν Nat (Action σ ω)} (hL : 0 < L)
    (hcloses : ∀ i, s.closes i = decide (L ∣ i)) (hroster : ∀ role, (roster role).Labelled)
    (hfirst : first.Accounted L reaction roster []) (h : Course s first done w) :
    w.Accounted L reaction roster (done.map Stage.entry) := by
  induction h with
  | start => exact hfirst
  | @step done w st h hst ih =>
      obtain ⟨hbefore, hsound⟩ := Walk.stage_ok hst
      rw [List.map_append, List.map_singleton]
      rw [← hbefore] at ih
      exact ih.step hL hcloses hroster (by rwa [List.length_map])

/-! ## Runs -/

namespace Solver

variable {s : Solver σ κ ω γ π} {initial : σ} {r : Request} {gauge : γ} {world : ω} {best : Rated σ}

/-- A run starts with nothing to account for. -/
theorem Embarked.accounted {setting : Setting σ κ ω γ π Float} {first : Walk σ κ ω γ π Float}
    {n L : Nat} (h : s.Embarked initial r gauge world setting first n) :
    first.Accounted L r.reaction.toFloat s.selector.pool [] where
  reaction_eq := by
    rw [h.selector]
    rfl
  pool := by
    intro role
    rw [h.selector, List.length_nil, Nat.zero_div, ← Pool.reset_eq]
    cases role <;> rfl
  snapshots := by
    rw [h.trace, List.length_nil, Nat.zero_div]
    rfl

variable [BEq κ]

/-- What a completed run leaves in the selector and in the snapshots can be told from its history.
There is one snapshot for each multiple of the segment length; it lists every operator of a pool
once, with the weight that the rows up to it account for. The numbers of the operators are those
that the rows of the whole run account for. -/
theorem run_weights_accounted {L : Nat} (hbuilt : s.Built) (hsegment : s.segment = .whole L)
    (hrun : (s.run initial r gauge world).result = .ok best) :
    ∃ n : Nat, r.iterations = .whole n ∧ (s.history initial r gauge world).length = n ∧ 0 < L ∧
      (s.run initial r gauge world).solver.trace.snapshots.toList.map Snapshot.iteration =
        (List.range' 1 (n / L)).map (fun k => k * L) ∧
      (s.run initial r gauge world).solver.trace.snapshots.toList =
        (List.range' 1 (n / L)).map (Snapshot.accounted r.reaction.toFloat
          (fun role => Pool.names (s.selector.pool role)) L (s.history initial r gauge world)) ∧
      (∀ role, (Pool.names (s.selector.pool role)).Nodup) ∧
      ∀ role, (s.run initial r gauge world).solver.selector.pool role =
        (s.selector.pool role).map (Operator.accounted r.reaction.toFloat role L
          (s.history initial r gauge world) (n / L)) := by
  obtain ⟨setting, first, last, n, h⟩ := run_ok hrun
  have hL : 0 < L := by
    have hpos := hbuilt.segment
    rw [hsegment, Quantity.whole_lt_whole] at hpos
    omega
  have hcloses : ∀ i, setting.closes i = decide (L ∣ i) := by
    intro i
    rw [h.closes, hsegment, Quantity.divides_whole]
  have hlast := h.course.accounted hL hcloses hbuilt.labelled h.toEmbarked.accounted
  rw [← h.history_eq] at hlast
  have hlength : (s.history initial r gauge world).length = n := by
    rw [h.history_eq, List.length_map, h.length]
  have hsnapshots := hlast.snapshots
  rw [hlength, ← h.recorded] at hsnapshots
  refine ⟨n, h.count, hlength, hL, ?_, hsnapshots, fun role => (hbuilt.labelled role).names, ?_⟩
  · rw [hsnapshots, List.map_map]
    rfl
  · intro role
    rw [h.adapted, hlast.pool role, hlength]

/-- The scripted solver with segments of two iterations, before operators are registered. Whenever
an odd number of candidates is left on the script, it draws from the upper end of the wheel. -/
def unmanned : Solver Nat Nat (List Nat) (List Bool) Unit :=
  { scripted decided with
    segment := .whole 2
    draw := fun script => (.ok (if script.length % 2 = 0 then 0 else 0.75), script)
    selector := .empty standardReaction }

/-- Reads the next candidate off the script. -/
def reading : Action Nat (List Nat) := fun n script => (.ok (script.headD n), script.tail)

def keeping : Action Nat (List Nat) := fun n script => (.ok n, script)

/-- A function offered under its title. -/
def titled (title : String) (action : Action Nat (List Nat)) : Offer (Action Nat (List Nat)) :=
  ⟨"function", none, some title, none, some action⟩

/-- The solver with two operators of one title that read and one that keeps. -/
def manned : Solver Nat Nat (List Nat) (List Bool) Unit :=
  let first := Pool.newOperator [] "read" reading
  { unmanned with
    selector :=
      { unmanned.selector with
        destroyers := [first, Pool.newOperator [first] "read" reading]
        repairers := [Pool.newOperator [] "keep" keeping] } }

theorem built_unmanned : unmanned.Built :=
  .create (show create (scripted decided).landscape (some decided) "Decided" "script"
    unmanned.draw (.whole 2) (.whole 0) = .ok unmanned from rfl)

theorem built_manned : manned.Built := by
  have hfirst := built_unmanned.register
    (show unmanned.register .destroy (titled "read" reading) none = .ok (_, _) from rfl)
  have hsecond := hfirst.register
    (show register _ .destroy (titled "read" reading) none = .ok (_, _) from rfl)
  exact hsecond.register
    (show register _ .repair (titled "keep" keeping) none = .ok (_, manned) from rfl)

/-- Two destroy operators of one title take turns. The first segment accounts for both of them, and
so does the second one; the fifth row belongs to a segment that is still open. -/
theorem run_weights_accounted_manned :
    let decisions := [true, true, false, true, true]
    let script := [52, 71, 33, 25, 24]
    let r : Request := { fourIterations with iterations := .whole 5 }
    let last := (manned.run 80 r decisions script).solver
    manned.Built ∧ manned.segment = .whole 2 ∧
      (manned.run 80 r decisions script).result = .ok ⟨25, .whole 2⟩ ∧
      Pool.names (manned.selector.pool .destroy) = ["read", "read_1"] ∧
      last.trace.snapshots.toList.map Snapshot.destroy =
        [[("read", 1.5), ("read_1", 2.5)], [("read", 2.75), ("read_1", 2.75)]] ∧
      (last.selector.pool .destroy).map Operator.timesUsed = [0, 1] ∧
      ∃ n, last.trace.snapshots.toList.map Snapshot.iteration =
        (List.range' 1 (n / 2)).map (fun k => k * 2) := by
  have hsegment : manned.segment = .whole (2 : Nat) := rfl
  have hrun : (manned.run 80 { fourIterations with iterations := .whole 5 }
      [true, true, false, true, true] [52, 71, 33, 25, 24]).result = .ok ⟨25, .whole 2⟩ := by
    decide +kernel
  obtain ⟨n, -, -, -, hiterations, -⟩ := run_weights_accounted built_manned hsegment hrun
  exact ⟨built_manned, hsegment, hrun, by decide +kernel, by decide +kernel, by decide +kernel, n,
    hiterations⟩

end Solver

end LargeNeighborhood

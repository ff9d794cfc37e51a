import LargeNeighborhood.Proofs.Search.Positivity
import LargeNeighborhood.Proofs.Search.Roulette

set_option autoImplicit false

/-! # Weights in exact arithmetic

With exact numbers the weights of a run stay within fixed bounds. What a segment makes for each use
of an operator is one and its rewards divided by its uses: at most one and the largest reward, and
at least one divided by the length of a segment, as no operator is used more often than that. A blend
of such shares by a reaction from zero to one stays between them (`weightAt_bounds`).

These bounds hold of every operator at every moment of a run (`Selector.Moment`). So the wheel is
never handed anything that it would refuse, and a selection fails only if the draw itself fails
(`Walk.Selects`).
-/

namespace LargeNeighborhood

variable {σ κ ω γ π β : Type}

/-! ## Bounds -/

/-- The largest of the three rewards. -/
def Rewards.largest (r : Rewards ℚ) : ℚ := max r.newBest (max r.better r.accepted)

/-- Rewards that are not negative. -/
structure Rewards.Nonneg (r : Rewards ℚ) : Prop where
  newBest : 0 ≤ r.newBest
  better : 0 ≤ r.better
  accepted : 0 ≤ r.accepted

/-- An operator whose weight lies between `1 / L` and `1 + M`, with a score of at least one. -/
structure Operator.Bounded (L : ℕ) (M : ℚ) (op : Operator ℚ Nat β) : Prop where
  lower : 1 / (L : ℚ) ≤ op.weight
  upper : op.weight ≤ 1 + M
  score : 1 ≤ op.score

/-- What an iteration earns is not negative and at most the largest reward. -/
theorem Rewards.Nonneg.score_bounds {r : Rewards ℚ} (h : r.Nonneg) (v : Verdict) :
    0 ≤ v.score r ∧ v.score r ≤ r.largest := by
  have hnewBest : r.newBest ≤ r.largest := le_max_left _ _
  have hbetter : r.better ≤ r.largest := (le_max_left _ _).trans (le_max_right _ _)
  have haccepted : r.accepted ≤ r.largest := (le_max_right _ _).trans (le_max_right _ _)
  unfold Verdict.score
  split
  · exact ⟨h.newBest, hnewBest⟩
  split
  · exact ⟨h.better, hbetter⟩
  split
  · exact ⟨h.accepted, haccepted⟩
  · rw [Scalar.zero_rat]
    exact ⟨le_rfl, h.newBest.trans hnewBest⟩

/-! ## What the rows account for -/

section Accounts

variable {L : ℕ} {M reaction : ℚ} {role : Role} {name : String} {rows : List (Entry ℚ π)}

/-- A score is one and all that was earned. -/
theorem score_bounds {scores : List ℚ} (h : ∀ x ∈ scores, 0 ≤ x ∧ x ≤ M) :
    1 ≤ scores.foldl (· + ·) Scalar.one ∧
      scores.foldl (· + ·) Scalar.one ≤ 1 + scores.length * M := by
  suffices hfrom : ∀ start : ℚ, start ≤ scores.foldl (· + ·) start ∧
      scores.foldl (· + ·) start ≤ start + scores.length * M from hfrom 1
  induction scores with
  | nil =>
      intro start
      simp
  | cons x scores ih =>
      intro start
      obtain ⟨⟨hx, hx'⟩, h⟩ := List.forall_mem_cons.mp h
      obtain ⟨hlow, hhigh⟩ := ih h (start + x)
      have hlength : (((x :: scores).length : ℕ) : ℚ) = scores.length + 1 := by simp
      rw [List.foldl_cons, hlength]
      constructor
      · linarith
      · linarith

/-- What a segment makes for each use of an operator lies between `1 / L` and `1 + M`. -/
theorem share_bounds {scores : List ℚ} (h : ∀ x ∈ scores, 0 ≤ x ∧ x ≤ M)
    (hused : 0 < scores.length) (hlength : scores.length ≤ L) :
    1 / (L : ℚ) ≤ scores.foldl (· + ·) Scalar.one / scores.length ∧
      scores.foldl (· + ·) Scalar.one / scores.length ≤ 1 + M := by
  obtain ⟨hlow, hhigh⟩ := score_bounds h
  have hpos : (0 : ℚ) < scores.length := by exact_mod_cast hused
  have hone : (1 : ℚ) ≤ scores.length := by exact_mod_cast hused
  have hle : (scores.length : ℚ) ≤ L := by exact_mod_cast hlength
  constructor
  · calc 1 / (L : ℚ) ≤ 1 / scores.length := one_div_le_one_div_of_le hpos hle
      _ ≤ _ := div_le_div_of_nonneg_right hlow hpos.le
  · rw [div_le_iff₀ hpos]
    calc _ ≤ 1 + scores.length * M := hhigh
      _ ≤ (1 + M) * scores.length := by linarith

/-- A blend of two numbers by a share lies between the bounds of both. -/
theorem blend_bounds {a b x y : ℚ} (h0 : 0 ≤ reaction) (h1 : reaction ≤ 1) (hx : a ≤ x ∧ x ≤ b)
    (hy : a ≤ y ∧ y ≤ b) :
    a ≤ (1 - reaction) * x + reaction * y ∧ (1 - reaction) * x + reaction * y ≤ b := by
  have hrest : 0 ≤ 1 - reaction := by linarith
  have hlow := add_le_add (mul_le_mul_of_nonneg_left hx.1 hrest) (mul_le_mul_of_nonneg_left hy.1 h0)
  have hhigh := add_le_add (mul_le_mul_of_nonneg_left hx.2 hrest)
    (mul_le_mul_of_nonneg_left hy.2 h0)
  constructor
  · linarith
  · linarith

theorem mem_scoresOf_segment {k : ℕ} {x : ℚ} (h : x ∈ scoresOf role name (segment L k rows)) :
    ∃ e ∈ rows, e.score = x := by
  obtain ⟨e, he, rfl⟩ := List.mem_map.mp h
  exact ⟨e, List.mem_of_mem_drop (List.mem_of_mem_take (List.mem_of_mem_filter he)), rfl⟩

/-- An operator is used at most once in each row of a segment. -/
theorem length_scoresOf_segment (k : ℕ) : (scoresOf role name (segment L k rows)).length ≤ L := by
  unfold scoresOf
  rw [List.length_map]
  exact (List.length_filter_le _ _).trans (List.length_take_le _ _)

theorem weightAt_bounds (hL : 1 ≤ L) (hM : 0 ≤ M) (h0 : 0 ≤ reaction) (h1 : reaction ≤ 1)
    (hrows : ∀ e ∈ rows, 0 ≤ e.score ∧ e.score ≤ M) (k : ℕ) :
    1 / (L : ℚ) ≤ weightAt reaction role name L rows k ∧
      weightAt reaction role name L rows k ≤ 1 + M := by
  induction k with
  | zero =>
      have hone : (1 : ℚ) ≤ L := by exact_mod_cast hL
      show 1 / (L : ℚ) ≤ 1 ∧ (1 : ℚ) ≤ 1 + M
      exact ⟨(div_le_one (by linarith)).mpr hone, by linarith⟩
  | succ k ih =>
      -- the share of a segment is blended in, or the operator was not used and keeps its weight
      rw [weightAt, reweigh_eq]
      split
      · rename_i hused
        have hscores : ∀ x ∈ scoresOf role name (segment L k rows), 0 ≤ x ∧ x ≤ M := by
          intro x hx
          obtain ⟨e, he, rfl⟩ := mem_scoresOf_segment hx
          exact hrows e he
        have hshare := share_bounds hscores hused (length_scoresOf_segment k)
        have hblend := blend_bounds h0 h1 ih hshare
        unfold Pool.blend
        rwa [Scalar.ofNat_rat, Nat.cast_one, Scalar.share_rat]
      · exact ih

theorem Operator.bounded_accounted (hL : 1 ≤ L) (hM : 0 ≤ M) (h0 : 0 ≤ reaction)
    (h1 : reaction ≤ 1) (hrows : ∀ e ∈ rows, 0 ≤ e.score ∧ e.score ≤ M) (k : ℕ)
    (op : Operator ℚ Nat β) : (op.accounted reaction role L rows k).Bounded L M := by
  obtain ⟨hlow, hhigh⟩ := weightAt_bounds hL hM h0 h1 hrows k
  have hscores : ∀ x ∈ scoresOf role op.name (segment L k rows), 0 ≤ x ∧ x ≤ M := by
    intro x hx
    obtain ⟨e, he, rfl⟩ := mem_scoresOf_segment hx
    exact hrows e he
  exact ⟨hlow, hhigh, (score_bounds hscores).1⟩

end Accounts

/-! ## Every moment of an iteration -/

/-- The selectors that iteration `i` goes through when it starts from a walk: before and after each
of the two operators is drawn, when the operators have been credited, when the segment has been
closed, and where the iteration has failed. -/
inductive Selector.Moment [BEq κ] (s : Setting σ κ ω γ π ℚ) (i : ℕ) (w : Walk σ κ ω γ π ℚ) :
    Selector ℚ Nat (Action σ ω) → Prop
  | start : Moment s i w w.selector
  | destroyer {op w'} (h : w.choose s.draw .destroy = .ok (op, w')) : Moment s i w w'.selector
  | repairer {op op' w' w''} (h : w.choose s.draw .destroy = .ok (op, w'))
      (h' : w'.choose s.draw .repair = .ok (op', w'')) : Moment s i w w''.selector
  | credited {turn judged} (h : w.attempt s = .ok (turn, judged)) :
      Moment s i w (judged.selector.credit turn.destroyer.index turn.repairer.index
        ((judged.verdict s i turn).score s.rewards))
  | settled {turn judged} (h : w.attempt s = .ok (turn, judged)) :
      Moment s i w (judged.settle s i turn).2.selector
  | failed {fault w'} (h : w.iterate s i = .error (fault, w')) : Moment s i w w'.selector

/-- Drawing operators keeps what their use keeps. -/
theorem Walk.Drift.all {ν : Type} [Scalar ν] {w w' : Walk σ κ ω γ π ν} (h : w.Drift w')
    {F : Operator ν Nat (Action σ ω) → Prop} (hw : w.selector.All F)
    (hF : ∀ op, F op → F { op with timesUsed := op.timesUsed + 1 }) : w'.selector.All F := by
  have hpool : ∀ (drawn : List ℕ) (p : Pool ν Nat (Action σ ω)), (∀ op ∈ p, F op) →
      ∀ op ∈ drawn.foldl Pool.use p, F op := by
    intro drawn
    induction drawn with
    | nil => exact fun p hp => hp
    | cons i drawn ih =>
        intro p hp
        exact ih _ (Pool.forall_modify hp (fun _ hop => hop) hF i)
  obtain ⟨drawn, drawn', hselector⟩ := h.selector
  rw [hselector]
  intro role
  cases role with
  | destroy => exact hpool drawn _ (hw .destroy)
  | repair => exact hpool drawn' _ (hw .repair)

theorem Selector.All.credit {ν : Type} [Scalar ν] {F : Operator ν Nat β → Prop}
    {a : Selector ν Nat β} (h : a.All F) {amount : ν}
    (hF : ∀ op, F op → F { op with score := op.score + amount }) (j k : ℕ) :
    (a.credit j k amount).All F := by
  intro role
  cases role with
  | destroy => exact Pool.forall_modify (h .destroy) (fun _ hop => hop) hF j
  | repair => exact Pool.forall_modify (h .repair) (fun _ hop => hop) hF k

theorem Operator.Bounded.used {L : ℕ} {M : ℚ} {op : Operator ℚ Nat β} (h : op.Bounded L M) :
    Bounded L M { op with timesUsed := op.timesUsed + 1 } := ⟨h.lower, h.upper, h.score⟩

theorem Operator.Bounded.credited {L : ℕ} {M amount : ℚ} {op : Operator ℚ Nat β}
    (h : op.Bounded L M) (hamount : 0 ≤ amount) :
    Bounded L M { op with score := op.score + amount } where
  lower := h.lower
  upper := h.upper
  score := by
    have hscore := h.score
    show 1 ≤ op.score + amount
    linarith

/-! ## Selecting -/

/-- Selecting an operator of one kind: there is something to select from, the weights are not
refused, and only the draw can fail. -/
structure Walk.Selects (draw : ω → Except Fault ℚ × ω) (w : Walk σ κ ω γ π ℚ) (role : Role) :
    Prop where
  nonempty : w.selector.pool role ≠ []
  nonneg : ∀ op ∈ w.selector.pool role, 0 ≤ op.weight
  positive : ∃ op ∈ w.selector.pool role, 0 < op.weight
  total : ∃ total, Roulette.total? ((w.selector.pool role).map Operator.weight) = .ok total
  chosen : ∀ {u world}, draw w.world = (.ok u, world) →
    ∃ op w', w.choose draw role = .ok (op, w') ∧ op ∈ w.selector.pool role
  failed : ∀ {fault w'}, w.choose draw role = .error (fault, w') →
    (draw w.world).1 = .error fault

/-- What an operator can be selected from: positive weights. -/
theorem Selector.All.selects {L : ℕ} {M : ℚ} {draw : ω → Except Fault ℚ × ω}
    {w : Walk σ κ ω γ π ℚ} {role : Role} (h : w.selector.All (Operator.Bounded L M)) (hL : 1 ≤ L)
    (hne : w.selector.pool role ≠ []) : w.Selects draw role := by
  have hpos : ∀ op ∈ w.selector.pool role, 0 < op.weight := by
    intro op hop
    have hlength : (1 : ℚ) ≤ L := by exact_mod_cast hL
    have hshare : 0 < 1 / (L : ℚ) := one_div_pos.mpr (by linarith)
    exact hshare.trans_le (h role op hop).lower
  have hweights : ∀ x ∈ (w.selector.pool role).map Operator.weight, 0 < x := by
    intro x hx
    obtain ⟨op, hop, rfl⟩ := List.mem_map.mp hx
    exact hpos op hop
  have htotal := Roulette.total?_rat (fun x hx => (hweights x hx).le)
    (List.sum_pos _ hweights (mt List.map_eq_nil_iff.mp hne))
  obtain ⟨hchosen, hfailed⟩ := Walk.choose_of_total hne htotal
  obtain ⟨op, hop⟩ := List.exists_mem_of_ne_nil _ hne
  exact {
    nonempty := hne
    nonneg := fun op hop => (hpos op hop).le
    positive := ⟨op, hop, hpos op hop⟩
    total := ⟨_, htotal⟩
    chosen := hchosen
    failed := hfailed }

/-! ## Runs -/

section Runs

variable {s : Setting σ κ ω γ π ℚ} {first w : Walk σ κ ω γ π ℚ} {L : ℕ} {reaction : ℚ}
  {roster : Role → Pool ℚ Nat (Action σ ω)} {rows : List (Entry ℚ π)}

theorem Stage.Sound.score_bounds [BEq κ] {i : ℕ} {st : Stage σ κ ω γ π ℚ} (h : st.Sound s i)
    (hrewards : s.rewards.Nonneg) :
    0 ≤ st.entry.score ∧ st.entry.score ≤ s.rewards.largest := by
  rw [h.entry]
  exact hrewards.score_bounds st.verdict

/-- A walk that the rows account for has bounded weights. -/
theorem Walk.Accounted.bounded {M : ℚ} (h : w.Accounted L reaction roster rows) (hL : 1 ≤ L)
    (hM : 0 ≤ M) (h0 : 0 ≤ reaction) (h1 : reaction ≤ 1)
    (hrows : ∀ e ∈ rows, 0 ≤ e.score ∧ e.score ≤ M) :
    w.selector.All (Operator.Bounded L M) := by
  intro role op hop
  rw [h.pool role] at hop
  obtain ⟨op', -, rfl⟩ := List.mem_map.mp hop
  exact Operator.bounded_accounted hL hM h0 h1 hrows _ op'

/-- A snapshot whose weights are bounded. -/
def Snapshot.Bounded (L : ℕ) (M : ℚ) (x : Snapshot ℚ) : Prop :=
  ∀ p ∈ x.destroy ++ x.repair, 1 / (L : ℚ) ≤ p.2 ∧ p.2 ≤ 1 + M

theorem Walk.Accounted.snapshots_bounded {M : ℚ} (h : w.Accounted L reaction roster rows)
    (hL : 1 ≤ L) (hM : 0 ≤ M) (h0 : 0 ≤ reaction) (h1 : reaction ≤ 1)
    (hrows : ∀ e ∈ rows, 0 ≤ e.score ∧ e.score ≤ M) :
    ∀ x ∈ w.trace.snapshots.toList, x.Bounded L M := by
  intro x hx p hp
  rw [h.snapshots] at hx
  obtain ⟨k, -, rfl⟩ := List.mem_map.mp hx
  rcases List.mem_append.mp hp with hp | hp
  · obtain ⟨name, -, rfl⟩ := List.mem_map.mp hp
    exact weightAt_bounds hL hM h0 h1 hrows k
  · obtain ⟨name, -, rfl⟩ := List.mem_map.mp hp
    exact weightAt_bounds hL hM h0 h1 hrows k

namespace Walk

/-- A walk with exact numbers at the start of a run, set up as any run is: segments have at least one
iteration, rewards are not negative, the reaction is a share, and the operators that have been
registered start over with equal weights. -/
structure ExactStart (s : Setting σ κ ω γ π ℚ) (L : ℕ) (reaction : ℚ)
    (roster : Role → Pool ℚ Nat (Action σ ω)) (first : Walk σ κ ω γ π ℚ) : Prop where
  length : 1 ≤ L
  closes : s.closes = (Quantity.whole L).divides
  rewards : s.rewards.Nonneg
  low : 0 ≤ reaction
  high : reaction ≤ 1
  labelled : ∀ role, (roster role).Labelled
  nonempty : ∀ role, roster role ≠ []
  selector : first.selector = Selector.reset ⟨roster .destroy, roster .repair, reaction⟩
  trace : first.trace = .empty

namespace ExactStart

theorem largest_nonneg (h : first.ExactStart s L reaction roster) : 0 ≤ s.rewards.largest :=
  h.rewards.newBest.trans (le_max_left _ _)

theorem closes_eq (h : first.ExactStart s L reaction roster) (i : ℕ) :
    s.closes i = decide (L ∣ i) := by
  rw [h.closes, Quantity.divides_whole]

variable [BEq κ] {done : List (Stage σ κ ω γ π ℚ)}

theorem accounted (h : first.ExactStart s L reaction roster) (hcourse : Course s first done w) :
    w.Accounted L reaction roster (done.map Stage.entry) := by
  refine hcourse.accounted h.length h.closes_eq h.labelled ?_
  exact {
    reaction_eq := by
      rw [h.selector]
      rfl
    pool := by
      intro role
      rw [h.selector, List.length_nil, Nat.zero_div, ← Pool.reset_eq]
      cases role <;> rfl
    snapshots := by
      rw [h.trace, List.length_nil, Nat.zero_div]
      rfl }

theorem rows_bounds (h : first.ExactStart s L reaction roster) (hcourse : Course s first done w) :
    ∀ e ∈ done.map Stage.entry, 0 ≤ e.score ∧ e.score ≤ s.rewards.largest := by
  intro e he
  obtain ⟨st, hst, rfl⟩ := List.mem_map.mp he
  obtain ⟨i, hsound⟩ := hcourse.sound st hst
  exact hsound.score_bounds h.rewards

theorem bounded (h : first.ExactStart s L reaction roster) (hcourse : Course s first done w) :
    w.selector.All (Operator.Bounded L s.rewards.largest) :=
  (h.accounted hcourse).bounded h.length h.largest_nonneg h.low h.high (h.rows_bounds hcourse)

theorem snapshots_bounded (h : first.ExactStart s L reaction roster)
    (hcourse : Course s first done w) :
    ∀ x ∈ w.trace.snapshots.toList, x.Bounded L s.rewards.largest :=
  (h.accounted hcourse).snapshots_bounded h.length h.largest_nonneg h.low h.high
    (h.rows_bounds hcourse)

theorem pool_ne_nil (h : first.ExactStart s L reaction roster) (hcourse : Course s first done w)
    (role : Role) : w.selector.pool role ≠ [] := by
  rw [(h.accounted hcourse).pool role]
  exact mt List.map_eq_nil_iff.mp (h.nonempty role)

/-- What has been tried is settled within the bounds as well, announced or not. -/
theorem settled_bounded (h : first.ExactStart s L reaction roster)
    (hcourse : Course s first done w) {turn : Turn σ κ ω ℚ} {judged : Walk σ κ ω γ π ℚ}
    (hattempt : w.attempt s = .ok (turn, judged)) :
    (judged.settle s (done.length + 1) turn).2.selector.All
      (Operator.Bounded L s.rewards.largest) := by
  have hsound : Stage.Sound s ((done.map Stage.entry).length + 1) ⟨w, turn,
      (judged.settle s (done.length + 1) turn).1, (judged.settle s (done.length + 1) turn).2⟩ := by
    rw [List.length_map]
    exact attempt_sound hattempt (done.length + 1)
  have haccounted := (h.accounted hcourse).step h.length h.closes_eq h.labelled hsound
  refine haccounted.bounded h.length h.largest_nonneg h.low h.high ?_
  intro e he
  rcases List.mem_append.mp he with he | he
  · exact h.rows_bounds hcourse e he
  · rw [List.mem_singleton.mp he]
    exact hsound.score_bounds h.rewards

/-- Whatever an iteration does to the selector, it stays within the bounds. -/
theorem moment_bounded (h : first.ExactStart s L reaction roster) (hcourse : Course s first done w)
    {b : Selector ℚ Nat (Action σ ω)} (hb : Selector.Moment s (done.length + 1) w b) :
    b.All (Operator.Bounded L s.rewards.largest) := by
  have hw := h.bounded hcourse
  cases hb with
  | start => exact hw
  | destroyer hd => exact (choose_drift hd).all hw fun _ hop => hop.used
  | repairer hd hr => exact ((choose_drift hd).trans (choose_drift hr)).all hw fun _ hop => hop.used
  | @credited turn judged hattempt =>
      obtain ⟨i, j, -, -, hselector⟩ := (attempt_ok hattempt).drawn
      have hearned := h.rewards.score_bounds (judged.verdict s (done.length + 1) turn)
      have hused : judged.selector.All (Operator.Bounded L s.rewards.largest) := by
        rw [hselector]
        intro role
        cases role with
        | destroy => exact Pool.forall_modify (hw .destroy) (fun _ hop => hop) (fun _ hop => hop.used) i
        | repair => exact Pool.forall_modify (hw .repair) (fun _ hop => hop) (fun _ hop => hop.used) j
      exact hused.credit (fun _ hop => hop.credited hearned.1) _ _
  | settled hattempt => exact h.settled_bounded hcourse hattempt
  | failed hfail =>
      -- it fails in front of the attempt, or behind it, in the report
      rw [iterate_eq_stage] at hfail
      rcases stage_error (map_eq_error.mp hfail) with hdrift | ⟨turn, judged, hattempt, rfl⟩
      · exact hdrift.all hw fun _ hop => hop.used
      · exact h.settled_bounded hcourse hattempt

end ExactStart

/-- At every moment of a run with exact numbers all weights lie between one divided by the length of a
segment and one more than the largest reward, and all scores are at least one. So the wheel refuses
neither of the two selections of an iteration, which fail only if the draw fails and otherwise return
an operator of the pool. -/
theorem run_weights_bounded [BEq κ] (h : first.ExactStart s L reaction roster) (n : ℕ) :
    (∀ w, run s n first = .ok w →
      (∀ b, Selector.Moment s (n + 1) w b → b.All (Operator.Bounded L s.rewards.largest)) ∧
      (∀ x ∈ w.trace.snapshots.toList, x.Bounded L s.rewards.largest) ∧
      w.Selects s.draw .destroy ∧
      ∀ op w', w.choose s.draw .destroy = .ok (op, w') → w'.Selects s.draw .repair) ∧
    ∀ fault w, run s n first = .error (fault, w) →
      w.selector.All (Operator.Bounded L s.rewards.largest) := by
  constructor
  · intro w hrun
    obtain ⟨done, hcourse, rfl⟩ : ∃ done, Course s first done w ∧ done.length = n :=
      ⟨_, course_of_run .start n hrun⟩
    have hmoment : ∀ b, Selector.Moment s (done.length + 1) w b →
        b.All (Operator.Bounded L s.rewards.largest) := by
      intro b hb
      exact h.moment_bounded hcourse hb
    refine ⟨hmoment, h.snapshots_bounded hcourse, ?_, ?_⟩
    · exact (hmoment _ .start).selects h.length (h.pool_ne_nil hcourse .destroy)
    · intro op w' hd
      refine (hmoment _ (.destroyer hd)).selects h.length ?_
      have hsame := Selector.pool_eq_nil_congr ((choose_drift hd).identities_eq .repair)
      exact mt hsame.mp (h.pool_ne_nil hcourse .repair)
  · intro fault w hrun
    obtain ⟨done, w₁, hcourse, hdrift | ⟨turn, judged, hattempt, rfl⟩⟩ := run_error hrun
    · exact hdrift.all (h.bounded hcourse) fun _ hop => hop.used
    · exact h.settled_bounded hcourse hattempt

/-- Two operators of one title that read and one that keeps, in segments of two iterations, rewarded
by whole numbers. -/
def exactSetting : Setting Nat Nat (List Nat) (List Bool) Unit ℚ where
  landscape := { cost := fun n => .ok (.whole (n / 10 : Nat)), key := .ok }
  criterion := Solver.decided
  draw := fun script => (.ok (if script.length % 2 = 0 then 0 else 3 / 4), script)
  rewards := ⟨3, 2, 1⟩
  closes := (Quantity.whole 2).divides
  announce := fun _ => .ok ""

def exactRoster : Role → Pool ℚ Nat (Action Nat (List Nat))
  | .destroy =>
      let first := Pool.newOperator [] "read" Solver.reading
      [first, Pool.newOperator [first] "read" Solver.reading]
  | .repair => [Pool.newOperator [] "keep" Solver.keeping]

def exactFirst : Walk Nat Nat (List Nat) (List Bool) Unit ℚ where
  world := [52, 71, 33, 25]
  gauge := [true, true, false, true]
  selector := Selector.reset ⟨exactRoster .destroy, exactRoster .repair, 4 / 5⟩
  best := ⟨80, .whole 8⟩
  current := ⟨80, .whole 8⟩
  accepted := []
  trace := .empty
  printed := ""

theorem labelled_exactRoster (role : Role) : (exactRoster role).Labelled := by
  cases role with
  | destroy =>
      have hfirst := Pool.Labelled.empty.register
        (show Pool.register [] (Solver.titled "read" Solver.reading) none =
          (.ok (_, _) : Except Fault (Operator ℚ Nat _ × Pool ℚ Nat _)) from rfl)
      exact hfirst.register
        (show Pool.register _ (Solver.titled "read" Solver.reading) none =
          .ok (_, exactRoster .destroy) from rfl)
  | repair =>
      exact Pool.Labelled.empty.register
        (show Pool.register [] (Solver.titled "keep" Solver.keeping) none =
          .ok (_, exactRoster .repair) from rfl)

theorem exactStart_exactFirst : exactFirst.ExactStart exactSetting 2 (4 / 5) exactRoster where
  length := by norm_num
  closes := rfl
  rewards := ⟨by norm_num [exactSetting], by norm_num [exactSetting], by norm_num [exactSetting]⟩
  low := by norm_num
  high := by norm_num
  labelled := labelled_exactRoster
  nonempty := fun role => by cases role <;> simp [exactRoster]
  selector := rfl
  trace := rfl

/-- Behind four iterations both weights have grown, and either operator can be drawn next. -/
theorem run_weights_bounded_exactFirst :
    ∃ w, run exactSetting 4 exactFirst = .ok w ∧
      (w.selector.pool .destroy).map Operator.weight = [77 / 25, 89 / 25] ∧
      w.selector.All (Operator.Bounded 2 3) ∧ w.Selects exactSetting.draw .destroy := by
  have hweights : (run exactSetting 4 exactFirst).map (fun w =>
      (w.selector.pool .destroy).map Operator.weight) = .ok [77 / 25, 89 / 25] := by
    decide +kernel
  obtain ⟨w, hrun, hw⟩ := map_eq_ok.mp hweights
  obtain ⟨hmoment, -, hselects, -⟩ := (run_weights_bounded exactStart_exactFirst 4).1 w hrun
  have hlargest : exactSetting.rewards.largest = 3 := by decide +kernel
  exact ⟨w, hrun, hw, hlargest ▸ hmoment _ .start, hselects⟩

end Walk

end Runs

end LargeNeighborhood

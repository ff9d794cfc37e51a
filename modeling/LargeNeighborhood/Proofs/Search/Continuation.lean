import LargeNeighborhood.Proofs.Search.Interruption

set_option autoImplicit false

/-! # The iterations still to come

A run goes on from every walk that its first iterations have led to (`Course.run_eq`). However it
goes on, it only adds to the record: at most one row for each iteration, and snapshots of
iterations still to come (`Walk.reached_grown`). So an attempt that succeeds is found in the record
that the run leaves (`Course.mem_entries_of_attempt`), and a run that has more iterations to go has
the same record up to where a shorter run ends (`Walk.run_trace_take`).
-/

namespace LargeNeighborhood

variable {σ κ ω γ π ν : Type}

/-! ## Records that grow -/

/-- A record with what `m` iterations behind iteration `k` may have added to it. -/
structure Trace.Grown (k m : Nat) (t t' : Trace ν π) : Prop where
  entries : ∃ more, t'.entries.toList = t.entries.toList ++ more ∧ more.length ≤ m
  snapshots : ∃ more, t'.snapshots.toList = t.snapshots.toList ++ more ∧
    ∀ x ∈ more, k < x.iteration ∧ x.iteration ≤ k + m

namespace Trace.Grown

variable {k l m : Nat} {t t' t'' : Trace ν π}

theorem refl (k m : Nat) (t : Trace ν π) : Grown k m t t where
  entries := ⟨[], by simp, Nat.zero_le m⟩
  snapshots := ⟨[], by simp, by simp⟩

theorem trans (h : Grown k l t t') (h' : Grown (k + l) m t' t'') : Grown k (l + m) t t'' := by
  obtain ⟨es, hes, hle⟩ := h.entries
  obtain ⟨es', hes', hle'⟩ := h'.entries
  obtain ⟨xs, hxs, hbound⟩ := h.snapshots
  obtain ⟨xs', hxs', hbound'⟩ := h'.snapshots
  refine ⟨⟨es ++ es', ?_, ?_⟩, xs ++ xs', ?_, ?_⟩
  · rw [hes', hes, List.append_assoc]
  · rw [List.length_append]
    omega
  · rw [hxs', hxs, List.append_assoc]
  · intro x hx
    rcases List.mem_append.mp hx with hx | hx
    · have := hbound x hx
      omega
    · have := hbound' x hx
      omega

end Trace.Grown

/-- The walk at which a run has come to its end, or has stopped. -/
def Walk.reached : Except (Walk.Stop σ κ ω γ π ν) (Walk σ κ ω γ π ν) → Walk σ κ ω γ π ν
  | .ok w => w
  | .error (_, w) => w

variable [BEq κ] [Scalar ν] {s : Setting σ κ ω γ π ν}

/-- A completed iteration adds its row, and a snapshot if it closes a segment. -/
theorem Stage.Sound.grown {k : Nat} {st : Stage σ κ ω γ π ν} (h : st.Sound s (k + 1)) :
    Trace.Grown k 1 st.before.trace st.after.trace where
  entries := ⟨[st.entry], by rw [h.entries, Array.toList_push], Nat.le_refl 1⟩
  snapshots := by
    rw [h.snapshots]
    split
    · refine ⟨[⟨k + 1, _, _⟩], Array.toList_push, ?_⟩
      intro x hx
      rw [List.mem_singleton.mp hx]
      exact ⟨Nat.lt_succ_self k, Nat.le_refl (k + 1)⟩
    · exact ⟨[], by simp, by simp⟩

/-! ## Where a run ends -/

theorem Walk.reached_grown (w : Walk σ κ ω γ π ν) (k m : Nat) :
    Trace.Grown k m w.trace (reached ((List.range' (k + 1) m).foldlM (iterate s) w)).trace := by
  -- On the iterations still to come; the first of them is completed, stops in its attempt, or
  -- stops behind its row.
  induction m generalizing k w with
  | zero => exact .refl k 0 w.trace
  | succ m ih =>
      rw [List.range'_succ, List.foldlM_cons, iterate_eq_stage, Nat.add_comm m 1]
      cases hst : w.stage s (k + 1) with
      | ok st =>
          obtain ⟨rfl, hsound⟩ := stage_ok hst
          exact hsound.grown.trans (ih st.after (k + 1))
      | error stop =>
          obtain ⟨fault, w'⟩ := stop
          show Trace.Grown k (1 + m) w.trace w'.trace
          rcases stage_error hst with hdrift | ⟨turn, judged, hattempt, rfl⟩
          · rw [hdrift.trace]
            exact .refl k (1 + m) w.trace
          · exact (attempt_sound hattempt (k + 1)).grown.trans (.refl (k + 1) m _)

namespace Course

variable {first w : Walk σ κ ω γ π ν} {done : List (Stage σ κ ω γ π ν)} {n : Nat}

/-- A run goes on from wherever its first iterations have led. -/
theorem run_eq (h : Course s first done w) (hn : done.length ≤ n) :
    Walk.run s n first =
      (List.range' (done.length + 1) (n - done.length)).foldlM (Walk.iterate s) w := by
  induction h with
  | start => rfl
  | @step done w st h hst ih =>
      have hlength : (done ++ [st]).length = done.length + 1 := List.length_append
      rw [hlength] at hn ⊢
      have hleft : n - done.length = n - (done.length + 1) + 1 := by omega
      rw [ih (by omega), hleft, List.range'_succ, List.foldlM_cons, Walk.iterate_eq_stage, hst]
      rfl

/-- The stages of a run go on from wherever its first iterations have led. -/
theorem stages_eq (h : Course s first done w) (hn : done.length ≤ n) : first.stages s n =
    done ++ Walk.stagesOf s w (List.range' (done.length + 1) (n - done.length)) := by
  induction h with
  | start => rfl
  | @step done w st h hst ih =>
      have hlength : (done ++ [st]).length = done.length + 1 := List.length_append
      rw [hlength] at hn ⊢
      have hleft : n - done.length = n - (done.length + 1) + 1 := by omega
      rw [ih (by omega), hleft, List.range'_succ, Walk.stagesOf, hst, List.append_assoc]
      rfl

/-- A run stops where the attempt of its next iteration fails. -/
theorem run_of_attempt_error (h : Course s first done w) (hn : done.length < n)
    {stop : Walk.Stop σ κ ω γ π ν} (hstop : w.attempt s = .error stop) :
    Walk.run s n first = .error stop := by
  have hleft : n - done.length = n - done.length - 1 + 1 := by omega
  rw [h.run_eq (Nat.le_of_lt hn), hleft, List.range'_succ, List.foldlM_cons]
  simp only [Walk.iterate, hstop]
  rfl

/-- What an attempt has tried can be read off the record that the run leaves. -/
theorem mem_entries_of_attempt (h : Course s first done w) (hn : done.length < n)
    {turn : Turn σ κ ω ν} {judged : Walk σ κ ω γ π ν} (hattempt : w.attempt s = .ok (turn, judged)) :
    (judged.settle s (done.length + 1) turn).1 ∈
      (Walk.reached (Walk.run s n first)).trace.entries.toList := by
  have hsound := Walk.attempt_sound hattempt (done.length + 1)
  have hmem : (judged.settle s (done.length + 1) turn).1 ∈
      (judged.settle s (done.length + 1) turn).2.trace.entries.toList := by
    rw [hsound.entries, Array.toList_push]
    exact List.mem_append_right _ List.mem_cons_self
  have hleft : n - done.length = n - done.length - 1 + 1 := by omega
  rw [h.run_eq (Nat.le_of_lt hn), hleft, List.range'_succ, List.foldlM_cons,
    Walk.iterate_eq_stage]
  cases hst : w.stage s (done.length + 1) with
  | ok st =>
      -- The row stays in the record, whatever is added behind it.
      obtain ⟨⟨turn', judged'⟩, hattempt', hst⟩ := bind_eq_ok.mp hst
      rw [hattempt] at hattempt'
      cases hattempt'
      obtain ⟨settled, hannounce, hst⟩ := bind_eq_ok.mp hst
      cases hst
      obtain ⟨text, -, rfl⟩ := map_eq_ok.mp hannounce
      obtain ⟨more, hmore, -⟩ := (Walk.reached_grown (s := s)
        { (judged.settle s (done.length + 1) turn).2 with
          printed := (judged.settle s (done.length + 1) turn).2.printed ++ text }
        (done.length + 1) (n - done.length - 1)).entries
      have hall := List.mem_append_left more hmem
      rw [← hmore] at hall
      exact hall
  | error stop =>
      obtain ⟨fault, w'⟩ := stop
      rcases bind_eq_error.mp hst with hstop | ⟨⟨turn', judged'⟩, hattempt', hst⟩
      · rw [hattempt] at hstop
        cases hstop
      rw [hattempt] at hattempt'
      cases hattempt'
      rcases bind_eq_error.mp hst with hannounce | ⟨after, -, hst⟩
      · have hw' := Walk.orStop_eq_error (map_eq_error.mp hannounce)
        show _ ∈ w'.trace.entries.toList
        rw [hw']
        exact hmem
      · cases hst

/-- The rows of completed iterations stay in the record. -/
theorem mem_entries (h : Course s first done w) (hn : done.length ≤ n) {st : Stage σ κ ω γ π ν}
    (hst : st ∈ done) : st.entry ∈ (Walk.reached (Walk.run s n first)).trace.entries.toList := by
  obtain ⟨more, hmore, -⟩ :=
    (Walk.reached_grown (s := s) w done.length (n - done.length)).entries
  rw [h.run_eq hn, hmore, h.entries]
  exact List.mem_append_left _ (List.mem_append_right _ (List.mem_map_of_mem hst))

/-- What holds of the first solution and of all candidates holds of every solution of a walk. -/
theorem solutions {P : Rated σ → Prop} (h : Course s first done w) (hbest : P first.best)
    (hcurrent : P first.current) (hdone : ∀ st ∈ done, P st.turn.candidate) :
    P w.best ∧ P w.current := by
  induction h with
  | start => exact ⟨hbest, hcurrent⟩
  | @step done w st h hst ih =>
      obtain ⟨hbefore, hsound⟩ := Walk.stage_ok hst
      obtain ⟨ihbest, ihcurrent⟩ := ih fun x hx => hdone x (List.mem_append_left _ hx)
      have hcandidate := hdone st (List.mem_append_right _ List.mem_cons_self)
      rw [← hbefore] at ihbest ihcurrent
      have hafter : P st.after.current := by
        rw [hsound.current]
        split
        · exact hcandidate
        · exact ihcurrent
      refine ⟨?_, hafter⟩
      rw [hsound.best]
      split
      · exact hafter
      · exact ihbest

/-- What holds of the first cost and of all candidates that a run records holds of every cost that
it meets. -/
theorem costs {P : Cost → Prop} (h : Course s first done w) (hn : done.length < n)
    (hbest : P first.best.cost) (hcurrent : P first.current.cost)
    (hrecorded : ∀ e ∈ (Walk.reached (Walk.run s n first)).trace.entries.toList, P e.candidate) :
    (P w.best.cost ∧ P w.current.cost) ∧
      ∀ turn judged, w.attempt s = .ok (turn, judged) → P turn.candidate.cost := by
  constructor
  · apply h.solutions (P := fun x => P x.cost) hbest hcurrent
    intro st hst
    obtain ⟨i, hsound⟩ := h.sound st hst
    have hcandidate := hrecorded _ (h.mem_entries (Nat.le_of_lt hn) hst)
    rwa [hsound.entry] at hcandidate
  · intro turn judged hattempt
    have hcandidate := hrecorded _ (h.mem_entries_of_attempt hn hattempt)
    rwa [Walk.settle_entry] at hcandidate

end Course

/-! ## Rows that can be announced -/

/-- An iteration whose row can be announced fails in its attempt only. -/
theorem Walk.stage_error_of_announced {w w' : Walk σ κ ω γ π ν} {i : Nat} {fault : Fault}
    (hannounce : ∀ turn judged, w.attempt s = .ok (turn, judged) →
      ∃ text, s.announce (judged.settle s i turn).1 = .ok text)
    (h : w.stage s i = .error (fault, w')) : Drift w w' := by
  rcases bind_eq_error.mp h with hattempt | ⟨⟨turn, judged⟩, hattempt, h⟩
  · exact attempt_error hattempt
  · obtain ⟨text, htext⟩ := hannounce turn judged hattempt
    rcases hsettle : judged.settle s i turn with ⟨entry, settled⟩
    simp only [hsettle] at h htext
    rcases bind_eq_error.mp h with h | ⟨after, -, h⟩
    · have hstop := map_eq_error.mp h
      rw [htext] at hstop
      cases hstop
    · cases h

/-- A run whose rows can be announced leaves what its completed iterations have led to. -/
theorem Walk.reached_of_announced {first : Walk σ κ ω γ π ν} {n : Nat}
    (hannounce : ∀ done w turn judged, Course s first done w → done.length < n →
      w.attempt s = .ok (turn, judged) →
      ∃ text, s.announce (judged.settle s (done.length + 1) turn).1 = .ok text) :
    ∃ done w, Course s first done w ∧ done.length ≤ n ∧ Drift w (reached (run s n first)) := by
  cases hrun : run s n first with
  | ok w =>
      obtain ⟨hcourse, hlength⟩ := course_of_run .start n hrun
      exact ⟨_, w, hcourse, Nat.le_of_eq hlength, .of_world w w.gauge w.world⟩
  | error stop =>
      obtain ⟨fault, w'⟩ := stop
      obtain ⟨done, w, hcourse, hlt, hstop⟩ := course_of_stop .start n hrun
      have hdrift := stage_error_of_announced (fun turn judged => hannounce done w turn judged
        hcourse hlt) hstop
      exact ⟨done, w, hcourse, Nat.le_of_lt hlt, hdrift⟩

/-! ## Runs of fewer iterations -/

/-- A run that completes records one row for each iteration. -/
theorem Walk.length_entries_of_run {first w : Walk σ κ ω γ π ν} (hfirst : first.trace = .empty)
    {n : Nat} (hrun : run s n first = .ok w) : w.trace.entries.toList.length = n := by
  obtain ⟨hcourse, hlength⟩ := course_of_run .start n hrun
  rw [hcourse.entries, hfirst, List.nil_append, List.length_append, List.length_map, hlength]
  exact Nat.zero_add n

/-- A longer run makes the first iterations like a shorter one. -/
theorem Walk.run_add (first : Walk σ κ ω γ π ν) {n m : Nat} (hnm : n ≤ m) : run s m first =
    run s n first >>= fun w => (List.range' (n + 1) (m - n)).foldlM (iterate s) w := by
  unfold run
  have hrange : List.range' 1 m = List.range' 1 n ++ List.range' (n + 1) (m - n) := by
    rw [Nat.add_comm n 1, List.range'_append_1, Nat.add_sub_cancel' hnm]
  rw [hrange, List.foldlM_append]

/-- The record of a shorter run is the record of a longer one, up to where the shorter one ends. -/
theorem Walk.run_trace_take {first : Walk σ κ ω γ π ν} (hfirst : first.trace = .empty) {n m : Nat}
    (hnm : n ≤ m) :
    let short := (reached (run s n first)).trace
    let long := (reached (run s m first)).trace
    short.entries.toList = long.entries.toList.take n ∧
      short.snapshots.toList = long.snapshots.toList.filter fun x => decide (x.iteration ≤ n) := by
  intro short long
  have hshort : Trace.Grown 0 n .empty short := hfirst ▸ reached_grown first 0 n
  obtain ⟨es, hes, hlength⟩ := hshort.entries
  obtain ⟨xs, hxs, hbound⟩ := hshort.snapshots
  rw [show short.entries.toList = es from hes, show short.snapshots.toList = xs from hxs]
  have hkept : xs.filter (fun x => decide (x.iteration ≤ n)) = xs := by
    rw [List.filter_eq_self]
    intro x hx
    have := (hbound x hx).2
    exact decide_eq_true (by omega)
  cases hrun : run s n first with
  | error stop =>
      -- The longer run has stopped where the shorter one has.
      have hlong : long = short := by
        show (reached (run s m first)).trace = (reached (run s n first)).trace
        rw [run_add first hnm, hrun]
        rfl
      rw [hlong, show short.entries.toList = es from hes, show short.snapshots.toList = xs from hxs]
      exact ⟨(List.take_of_length_le hlength).symm, hkept.symm⟩
  | ok w =>
      have hshortw : short = w.trace := by
        show (reached (run s n first)).trace = w.trace
        rw [hrun]
        rfl
      have hgrown : Trace.Grown n (m - n) short long := by
        show Trace.Grown n (m - n) short (reached (run s m first)).trace
        rw [hshortw, run_add first hnm, hrun]
        exact reached_grown w n (m - n)
      obtain ⟨es', hes', -⟩ := hgrown.entries
      obtain ⟨xs', hxs', hlater⟩ := hgrown.snapshots
      have hcount : es.length = n := by
        rw [← length_entries_of_run hfirst hrun, ← hshortw]
        exact congrArg List.length hes.symm
      refine ⟨?_, ?_⟩
      · rw [hes', hes]
        exact (List.take_left' hcount).symm
      · have hdropped : xs'.filter (fun x => decide (x.iteration ≤ n)) = [] := by
          rw [List.filter_eq_nil_iff]
          intro x hx hle
          have := (hlater x hx).1
          have := of_decide_eq_true hle
          omega
        rw [hxs', hxs, List.filter_append, hdropped, List.append_nil]
        exact hkept.symm

/-! ## What a run leaves -/

/-- A run leaves the selector and the record of the walk at which it has ended or stopped. -/
theorem Solver.run_reached {s : Solver σ κ ω γ π} {initial : σ} {r : Request} {gauge : γ} {world : ω}
    {setting : Setting σ κ ω γ π Float} {first : Walk σ κ ω γ π Float} {n : Nat}
    (h : s.embark initial r gauge world = .ok (setting, first, n)) :
    (s.run initial r gauge world).solver.selector =
        (Walk.reached (Walk.run setting n first)).selector ∧
      (s.run initial r gauge world).solver.trace =
        (Walk.reached (Walk.run setting n first)).trace := by
  rw [run_of_embark h]
  cases Walk.run setting n first with
  | error stop => exact ⟨rfl, rfl⟩
  | ok w =>
      dsimp only
      cases w.best.cost.fixed? 2 <;> exact ⟨rfl, rfl⟩

end LargeNeighborhood

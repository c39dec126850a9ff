import Horsie.AgentCore.Run
import Horsie.Lib.Streak

/-!
# Telling loops from work

A run compares the batch of tool calls the provider answered with to those before it, by the text
`toolFingerprint` makes of each. One window of the last `stuckThreshold` texts serves two tests: the
run fails where it is full of this batch, and the batch is refused where at least `nudgeThreshold`
texts are in it and *all* of them are this batch's. So a repetition that begins behind another batch
is not refused before it fills the window, where the run fails.
-/

namespace Horsie.AgentCore

open Horsie.Agent Lib

/-- A batch, as the loop is to compare it: names and inputs. -/
def Round.asked (round : Round) : List (String × Value) :=
  round.calls.map fun c => (c.name, c.input)

namespace Run

/-- The run gets as far as comparing the batch of this round. -/
structure Judges (r : Run) (round : Round) : Prop where
  going : round.cancelledAtTop = false
  budget : r.iteration < r.agent.config.maxIterations
  calls : round.calls ≠ []

def Stuck (r : Run) (round : Round) : Prop :=
  ∃ r' name count, r.iterate round = .ended r' (.error (.stuckInLoop name count))

/-- The batch of this round is answered with nudges, and none of it is executed. -/
def Nudged (r : Run) (round : Round) : Prop :=
  ∃ r' response, r.iterate round = .again r' ∧
    r'.agent.history = (r.maybeCompact round.compaction).agent.history ++
      assistantMessage round response :: round.calls.map (nudgeMessage round.answeredMs) ∧
    r'.written = (r.maybeCompact round.compaction).written ++
      (callEvents round response).map .event ++ round.batch.hooks

/-- The run gets through `past` and then compares the batch of `round`. -/
structure Compares (start : Run) (rounds past : List Round) (round : Round) (r : Run) : Prop where
  played : past ++ [round] <+: rounds
  after : start.after? past = some r
  judges : r.Judges round

/-- What loop detection promises of a run the world answers with `rounds`. -/
structure DetectsLoops (start : Run) (rounds : List Round) : Prop where
  /-- A batch is answered with nudges when the last `nudgeThreshold` batches are identical, and the
  run is not failed at it. -/
  nudged : ∀ past round r, Compares start rounds past round r →
    (r.Nudged round ↔
      Repeats start.agent.config.nudgeThreshold ((past ++ [round]).map Round.asked) ∧
        ¬ r.Stuck round)
  /-- The run fails when the last `stuckThreshold` batches are identical. -/
  stuck : ∀ past round r, Compares start rounds past round r →
    (r.Stuck round ↔
      Repeats start.agent.config.stuckThreshold ((past ++ [round]).map Round.asked))
  /-- A run that fails has been nudged at each batch since it was to be. -/
  warned : ∀ past round r, Compares start rounds past round r → r.Stuck round →
    ∀ earlier round' r', Compares start rounds earlier round' r' →
      earlier.length < past.length → past.length ≤ earlier.length +
        (start.agent.config.stuckThreshold - start.agent.config.nudgeThreshold) →
      r'.Nudged round'
  told : ∀ past round r past' round' r', Compares start rounds past round r →
    Compares start rounds past' round' r' →
    toolFingerprint round.calls = toolFingerprint round'.calls → round.asked = round'.asked

/-- In this run, batches that repeat `nudgeThreshold` times have done so from its first batch on. -/
def FromFirst (start : Run) (rounds : List Round) : Prop :=
  ∀ past round r, Compares start rounds past round r →
    Repeats start.agent.config.nudgeThreshold ((past ++ [round]).map Round.asked) →
    Uniform ((past ++ [round]).map Round.asked)

/-- The batches of this run that differ have different fingerprints. -/
def Distinct (start : Run) (rounds : List Round) : Prop :=
  ∀ past round r past' round' r', Compares start rounds past round r →
    Compares start rounds past' round' r' → round.asked ≠ round'.asked →
    toolFingerprint round.calls ≠ toolFingerprint round'.calls

/-! ## One iteration -/

/-- The run has seen this batch, and the last `n` batches of its window are all of them this one. -/
def sees (r : Run) (round : Round) (n : ℕ) : Bool :=
  (r.remember (toolFingerprint round.calls)).repeats n (toolFingerprint round.calls)

variable {r : Run}

theorem sees_congr {x : Run} (round : Round) (n : ℕ)
    (hrecent : x.recentFingerprints = r.recentFingerprints)
    (hconfig : x.agent.config = r.agent.config) : x.sees round n = r.sees round n := by
  unfold sees repeats remember
  rw [hrecent, hconfig]

variable {round : Round}

/-- What becomes of a batch that is compared. -/
theorem iterate_judged (h : r.Judges round) :
    (r.sees round r.agent.config.stuckThreshold = true ∧ r.Stuck round) ∨
    (r.sees round r.agent.config.stuckThreshold = false ∧ ¬ r.Stuck round ∧
      (r.sees round r.agent.config.nudgeThreshold = true → ∃ r', r.iterate round = .again r')) := by
  obtain ⟨htop, hbudget, hcalls⟩ := h
  cases ha : round.answer with
  | failed e => exact absurd (by rw [Round.calls, ha]) hcalls
  | cancelled => exact absurd (by rw [Round.calls, ha]) hcalls
  | response response =>
    have hc : round.calls = extractToolCalls response.parts := by rw [Round.calls, ha]
    set x := (({ r with iteration := r.iteration + 1 }.maybeCompact round.compaction).emit
      (.messageStart round.messageId :: round.chunks.map .textChunk)).answered round response
    have hiter : r.iterate round = x.respond round response := by
      rw [iterate, if_neg (by rw [htop]; exact Bool.false_ne_true), if_neg (Nat.not_le.mpr hbudget)]
      simp only [ha]
      rfl
    have hconfig : x.agent.config = r.agent.config := r.agent.maybeCompact_config _
    have hsees : ∀ n, x.sees round n = r.sees round n := fun n => sees_congr round n rfl hconfig
    unfold Stuck
    rw [hiter, ← hsees, ← hsees, ← hconfig]
    unfold respond sees
    clear_value x
    cases hcs : extractToolCalls response.parts with
    | nil => exact absurd (hc.trans hcs) hcalls
    | cons call rest =>
      rw [hc, hcs]
      dsimp only
      have hkept : ∀ f, (x.remember f).agent = x.agent := fun _ => rfl
      rw [hkept]
      split_ifs with hstuck hnudge hcancel
      · exact .inl ⟨hstuck, _, _, _, rfl⟩
      · refine .inr ⟨eq_false_of_ne_true hstuck, ?_, fun _ => ⟨_, rfl⟩⟩
        rintro ⟨_, _, _, h⟩
        cases h
      · refine .inr ⟨eq_false_of_ne_true hstuck, ?_, fun h => absurd h hnudge⟩
        rintro ⟨_, _, _, h⟩
        cases h
      · refine .inr ⟨eq_false_of_ne_true hstuck, ?_, fun h => absurd h hnudge⟩
        rintro ⟨r', name, count, h⟩
        unfold execute at h
        split_ifs at h
        · cases h
        · split at h <;> cases h

theorem stuck_iff (h : r.Judges round) :
    r.Stuck round ↔ r.sees round r.agent.config.stuckThreshold = true := by
  rcases iterate_judged h with ⟨hsees, hstuck⟩ | ⟨hsees, hstuck, -⟩
  · exact iff_of_true hstuck hsees
  · exact iff_of_false hstuck (by rw [hsees]; exact Bool.false_ne_true)

theorem written_ne_hooks (b : Batch) {calls : List ToolCallPart} (hc : calls ≠ []) :
    b.written calls ≠ b.hooks := by
  intro h
  obtain ⟨call, hcall⟩ := List.exists_mem_of_ne_nil _ hc
  have hmem : Written.event (.toolExecuting call.id) ∈ b.hooks := by
    rw [← h]
    exact List.mem_append_left _ (List.mem_map_of_mem hcall)
  obtain ⟨a, -, ha⟩ := List.mem_filterMap.mp hmem
  cases a <;> cases ha

theorem nudged_iff (h : r.Judges round) :
    r.Nudged round ↔ r.sees round r.agent.config.nudgeThreshold = true ∧ ¬ r.Stuck round := by
  have hnudges : r.nudges round = r.sees round r.agent.config.nudgeThreshold := rfl
  constructor
  · rintro ⟨r', response, hiter, -, hwritten⟩
    obtain ⟨response', -, -, hwritten'⟩ := iterate_again hiter
    have hstuck : ¬ r.Stuck round := by
      rintro ⟨_, _, _, hended⟩
      rw [hiter] at hended
      cases hended
    refine ⟨?_, hstuck⟩
    rw [← hnudges]
    by_contra hno
    rw [hwritten, if_neg hno] at hwritten'
    exact written_ne_hooks _ h.calls
      (List.append_inj hwritten' (by simp [callEvents])).2.symm
  · rintro ⟨hsees, hstuck⟩
    rcases iterate_judged h with ⟨-, hs⟩ | ⟨-, -, hagain⟩
    · exact absurd hs hstuck
    · obtain ⟨r', hr'⟩ := hagain hsees
      obtain ⟨response, -, hhistory, hwritten⟩ := iterate_again hr'
      rw [if_pos (hnudges.trans hsees)] at hhistory hwritten
      exact ⟨r', response, hr', hhistory, hwritten⟩

theorem again_remembers {r' : Run} (h : r.iterate round = .again r') :
    r.Judges round ∧ r'.agent.config = r.agent.config ∧
      r'.recentFingerprints =
        (r.remember (toolFingerprint round.calls)).recentFingerprints := by
  obtain ⟨-, hcalls, -, -⟩ := iterate_again h
  unfold iterate at h
  split_ifs at h with htop hmax
  refine ⟨⟨eq_false_of_ne_true htop, Nat.not_le.mp hmax, hcalls⟩, ?_⟩
  have hconfig := r.agent.maybeCompact_config round.compaction
  have hrem : ∀ (x : Run) (f : String), x.agent.config = r.agent.config →
      x.recentFingerprints = r.recentFingerprints →
      (x.remember f).recentFingerprints = (r.remember f).recentFingerprints := by
    intro x f hc hr
    simp only [remember, hc, hr]
  cases ha : round.answer with
  | failed e => simp [ha] at h
  | cancelled => simp [ha] at h
  | response response =>
    have hc : round.calls = extractToolCalls response.parts := by rw [Round.calls, ha]
    simp only [ha] at h
    unfold respond at h
    cases hcs : extractToolCalls response.parts with
    | nil => exact absurd (hc.trans hcs) hcalls
    | cons call rest =>
      simp only [hcs] at h
      rw [hc, hcs]
      split_ifs at h
      · cases h
        exact ⟨hconfig, hrem _ _ hconfig rfl⟩
      · unfold execute at h
        split_ifs at h
        split at h
        · cases h
          exact ⟨hconfig, hrem _ _ hconfig rfl⟩
        · cases h

/-! ## Over a run -/

theorem after?_append (r : Run) (past rest : List Round) :
    r.after? (past ++ rest) = (r.after? past).bind (·.after? rest) := by
  induction past generalizing r with
  | nil => rfl
  | cons round past ih =>
    simp only [List.cons_append, after?]
    cases r.iterate round with
    | again r' => exact ih r'
    | ended r' result => rfl

theorem after?_snoc {r' : Run} {past : List Round}
    (h : r.after? (past ++ [round]) = some r') :
    ∃ y, r.after? past = some y ∧ y.iterate round = .again r' := by
  rw [after?_append] at h
  obtain ⟨y, hy, hlast⟩ := Option.bind_eq_some_iff.mp h
  refine ⟨y, hy, ?_⟩
  rw [after?] at hlast
  cases hi : y.iterate round with
  | ended => simp [hi] at hlast
  | again r'' =>
    simp only [hi, after?] at hlast
    rw [Option.some.inj hlast]

theorem after_window {start : Run} {past : List Round} (hnew : start.recentFingerprints = [])
    (h : start.after? past = some r) :
    r.agent.config = start.agent.config ∧ r.recentFingerprints =
      (past.map fun x => toolFingerprint x.calls).rtake start.agent.config.stuckThreshold := by
  induction past using List.reverseRecOn generalizing r with
  | nil =>
    cases h
    exact ⟨rfl, by rw [hnew, List.map_nil, List.rtake_nil]⟩
  | append_singleton past round ih =>
    obtain ⟨y, hy, hiter⟩ := after?_snoc h
    obtain ⟨-, hconfig, hrecent⟩ := again_remembers hiter
    obtain ⟨hyc, hyr⟩ := ih hy
    have hpos : 0 < start.agent.config.stuckThreshold :=
      Nat.zero_lt_of_lt start.agent.config.nudge_lt_stuck
    refine ⟨hconfig.trans hyc, ?_⟩
    rw [hrecent, List.map_append, List.map_singleton, ← window_snoc hpos]
    simp only [remember, hyr, hyc]

variable {start r r' : Run} {rounds past past' : List Round} {round round' : Round} {n : ℕ}

theorem Compares.config (h : Compares start rounds past round r)
    (hnew : start.recentFingerprints = []) : r.agent.config = start.agent.config :=
  (after_window hnew h.after).1

/-- What a test of the window comes to, over the batches of the run. -/
theorem Compares.sees_iff (h : Compares start rounds past round r)
    (hnew : start.recentFingerprints = []) (hle : n ≤ start.agent.config.stuckThreshold) :
    r.sees round n = true ↔ n ≤ (past ++ [round]).length ∧
      Uniform (((past ++ [round]).map fun x => toolFingerprint x.calls).rtake
        start.agent.config.stuckThreshold) := by
  obtain ⟨hconfig, hrecent⟩ := after_window hnew h.after
  have hpos : 0 < start.agent.config.stuckThreshold :=
    Nat.zero_lt_of_lt start.agent.config.nudge_lt_stuck
  have hwindow : (r.remember (toolFingerprint round.calls)).recentFingerprints =
      ((past ++ [round]).map fun x => toolFingerprint x.calls).rtake
        start.agent.config.stuckThreshold := by
    rw [List.map_append, List.map_singleton, ← window_snoc hpos]
    simp only [remember, hrecent, hconfig]
  unfold sees repeats
  rw [hwindow, Bool.and_eq_true, decide_eq_true_eq, List.all_eq_true, length_rtake, List.length_map]
  obtain ⟨k, hk⟩ : ∃ k, start.agent.config.stuckThreshold = k + 1 :=
    ⟨start.agent.config.stuckThreshold - 1, by omega⟩
  rw [hk] at hle ⊢
  rw [List.map_append, List.map_singleton, List.rtake_concat_succ, uniform_snoc]
  simp only [decide_eq_true_eq]
  exact and_congr_left fun _ => by omega

theorem Compares.stuck_iff (h : Compares start rounds past round r)
    (hnew : start.recentFingerprints = []) :
    r.Stuck round ↔ Repeats start.agent.config.stuckThreshold
      ((past ++ [round]).map fun x => toolFingerprint x.calls) := by
  rw [Run.stuck_iff h.judges, h.config hnew, h.sees_iff hnew (Nat.le_refl _), Repeats,
    List.length_map]

theorem Compares.nudged_iff (h : Compares start rounds past round r)
    (hnew : start.recentFingerprints = []) :
    r.Nudged round ↔ (start.agent.config.nudgeThreshold ≤ (past ++ [round]).length ∧
      Uniform (((past ++ [round]).map fun x => toolFingerprint x.calls).rtake
        start.agent.config.stuckThreshold)) ∧ ¬ r.Stuck round := by
  rw [Run.nudged_iff h.judges, h.config hnew,
    h.sees_iff hnew start.agent.config.nudge_lt_stuck.le]

theorem Compares.before (h : Compares start rounds (past ++ [round']) round r) :
    ∃ y, Compares start rounds past round' y ∧ ¬ y.Stuck round' := by
  obtain ⟨y, hy, hiter⟩ := after?_snoc h.after
  refine ⟨y, ⟨?_, hy, (again_remembers hiter).1⟩, ?_⟩
  · exact (List.prefix_append _ _).trans h.played
  · rintro ⟨_, _, _, hended⟩
    rw [hiter] at hended
    cases hended

theorem Compares.earlier (h : Compares start rounds past round r)
    (h' : Compares start rounds past' round' r') (hlt : past'.length < past.length) :
    past' ++ [round'] <+: past ∧ ¬ r'.Stuck round' := by
  have hpre : past' ++ [round'] <+: past := by
    refine List.prefix_of_prefix_length_le h'.played ((List.prefix_append _ _).trans h.played) ?_
    rw [List.length_append, List.length_singleton]
    exact hlt
  refine ⟨hpre, ?_⟩
  obtain ⟨rest, rfl⟩ := hpre
  have hafter := h.after
  rw [after?_append] at hafter
  obtain ⟨z, hz, -⟩ := Option.bind_eq_some_iff.mp hafter
  obtain ⟨y, hy, hiter⟩ := after?_snoc hz
  cases hy.symm.trans h'.after
  rintro ⟨_, _, _, hended⟩
  rw [hiter] at hended
  cases hended

theorem Compares.of_mem (h : Compares start rounds past round r) {x : Round}
    (hx : x ∈ past ++ [round]) : ∃ earlier y, Compares start rounds earlier x y := by
  rcases List.mem_append.mp hx with hx | hx
  · obtain ⟨s, t, rfl⟩ := List.append_of_mem hx
    have hafter := h.after
    rw [List.append_cons, after?_append] at hafter
    obtain ⟨z, hz, -⟩ := Option.bind_eq_some_iff.mp hafter
    obtain ⟨y, hy, hiter⟩ := after?_snoc hz
    have hplayed := h.played
    rw [List.append_assoc, List.cons_append, List.append_cons] at hplayed
    exact ⟨s, y, ⟨(List.prefix_append _ _).trans hplayed, hy, (again_remembers hiter).1⟩⟩
  · obtain rfl := List.mem_singleton.mp hx
    exact ⟨past, r, h⟩

theorem fingerprint_of_asked (h : round.asked = round'.asked) :
    toolFingerprint round.calls = toolFingerprint round'.calls := by
  have htext : ∀ x : Round, toolFingerprint x.calls =
      "|".intercalate (x.asked.map fun c => c.1 ++ ":" ++ c.2.render) := fun x => by
    rw [toolFingerprint, Round.asked, List.map_map]
    rfl
  rw [htext, htext, h]

theorem Distinct.same_iff (hd : Distinct start rounds) (h : Compares start rounds past round r) :
    ∀ x ∈ past ++ [round], ∀ y ∈ past ++ [round],
      toolFingerprint x.calls = toolFingerprint y.calls ↔ x.asked = y.asked := by
  intro x hx y hy
  obtain ⟨px, rx, hcx⟩ := h.of_mem hx
  obtain ⟨py, ry, hcy⟩ := h.of_mem hy
  refine ⟨fun heq => ?_, fingerprint_of_asked⟩
  by_contra hne
  exact hd px x rx py y ry hcx hcy hne heq

/-- Where no batch repeats before the window is full of it or the run is all of it, what the test
for nudges sees is every streak. -/
theorem Distinct.nudged_iff (hd : Distinct start rounds) (hnew : start.recentFingerprints = [])
    (h : Compares start rounds past round r) :
    r.Nudged round ↔ (start.agent.config.nudgeThreshold ≤ (past ++ [round]).length ∧
      Uniform (((past ++ [round]).map Round.asked).rtake start.agent.config.stuckThreshold)) ∧
      ¬ r.Stuck round := by
  have hsame := hd.same_iff h
  rw [h.nudged_iff hnew, rtake_map, rtake_map, (repeats_map_congr (n := 0) fun x hx y hy =>
    hsame x (rtake_subset _ _ hx) y (rtake_subset _ _ hy)).1]

theorem Distinct.stuck_iff (hd : Distinct start rounds) (hnew : start.recentFingerprints = [])
    (h : Compares start rounds past round r) :
    r.Stuck round ↔
      Repeats start.agent.config.stuckThreshold ((past ++ [round]).map Round.asked) := by
  rw [h.stuck_iff hnew, (repeats_map_congr (hd.same_iff h)).2]

theorem FromFirst.nudged_iff (hf : FromFirst start rounds) (hd : Distinct start rounds)
    (hnew : start.recentFingerprints = []) (h : Compares start rounds past round r) :
    r.Nudged round ↔
      Repeats start.agent.config.nudgeThreshold ((past ++ [round]).map Round.asked) ∧
        ¬ r.Stuck round := by
  rw [hd.nudged_iff hnew h]
  refine and_congr_left fun _ => ⟨fun hw => ?_, fun hrep => ?_⟩
  · refine ⟨by rw [List.length_map]; exact hw.1, hw.2.subset (rtake_mono ?_)⟩
    exact start.agent.config.nudge_lt_stuck.le
  · refine ⟨by simpa using hrep.1, ?_⟩
    exact (hf past round r h hrep).subset (rtake_subset _ _)

/-- A window that is full of one batch ends the run: a streak is seen by both tests from the run's
first batch on, or by neither. -/
theorem FromFirst.of_nudged (hd : Distinct start rounds) (hnew : start.recentFingerprints = [])
    (hn : ∀ past round r, Compares start rounds past round r →
      (r.Nudged round ↔
        Repeats start.agent.config.nudgeThreshold ((past ++ [round]).map Round.asked) ∧
          ¬ r.Stuck round)) : FromFirst start rounds := by
  have hlt := start.agent.config.nudge_lt_stuck
  -- where a streak is nudged, the window is full of it or the run is all of it
  have hwindow : ∀ past round r, Compares start rounds past round r → ¬ r.Stuck round →
      Repeats start.agent.config.nudgeThreshold ((past ++ [round]).map Round.asked) →
      (past ++ [round]).length < start.agent.config.stuckThreshold ∧
        Uniform ((past ++ [round]).map Round.asked) := by
    intro past round r h hstuck hrep
    have hseen := ((hd.nudged_iff hnew h).mp ((hn past round r h).mpr ⟨hrep, hstuck⟩)).1.2
    have hshort : (past ++ [round]).length < start.agent.config.stuckThreshold := by
      by_contra hlong
      refine hstuck ((hd.stuck_iff hnew h).mpr ⟨?_, hseen⟩)
      rw [List.length_map]
      omega
    rw [rtake_of_length_le (by rw [List.length_map]; exact hshort.le)] at hseen
    exact ⟨hshort, hseen⟩
  intro past round r h hrep
  by_cases hstuck : r.Stuck round
  · have hfull := (hd.stuck_iff hnew h).mp hstuck
    refine hfull.uniform_of_le ?_
    by_contra hlong
    rw [List.length_map, List.length_append, List.length_singleton] at hlong
    -- the batch before was nudged, so the run is no longer than the window
    obtain rfl | ⟨before, last, rfl⟩ := past.eq_nil_or_concat'
    · simp only [List.length_nil] at hlong
      omega
    · obtain ⟨y, hy, hgoing⟩ := h.before
      obtain ⟨k, hk⟩ : ∃ k, start.agent.config.stuckThreshold = k + 1 :=
        ⟨start.agent.config.stuckThreshold - 1, by omega⟩
      rw [hk, List.map_append, List.map_singleton] at hfull
      have hshort := (hwindow before last y hy hgoing (hfull.of_snoc.mono (by omega))).1
      omega
  · exact (hwindow past round r h hstuck hrep).2

/-- Loop detection is exact, and warns first, in exactly the runs in which a repetition begins with
the first batch and different batches have different fingerprints. -/
theorem loops_detected_iff (agent : Agent) (before : List AgentEvent) (input : AgentInput)
    (now : ℕ) (rounds : List Round) :
    DetectsLoops (Run.start agent before input now) rounds ↔
      FromFirst (Run.start agent before input now) rounds ∧
        Distinct (Run.start agent before input now) rounds := by
  have hnew : (Run.start agent before input now).recentFingerprints = [] := rfl
  generalize Run.start agent before input now = start at hnew ⊢
  constructor
  · intro h
    have hd : Distinct start rounds := fun past round r past' round' r' hc hc' hne heq =>
      hne (h.told past round r past' round' r' hc hc' heq)
    exact ⟨.of_nudged hd hnew h.nudged, hd⟩
  · rintro ⟨hf, hd⟩
    refine ⟨fun past round r h => hf.nudged_iff hd hnew h,
      fun past round r h => hd.stuck_iff hnew h, ?_, ?_⟩
    · intro past round r h hstuck past' round' r' h' hlt hle
      obtain ⟨⟨rest, hrest⟩, hgoing⟩ := h.earlier h' hlt
      refine (hf.nudged_iff hd hnew h').mpr ⟨?_, hgoing⟩
      have hrep := (hd.stuck_iff hnew h).mp hstuck
      rw [← hrest, List.append_assoc, List.map_append] at hrep
      have hsum := Nat.add_sub_cancel' start.agent.config.nudge_lt_stuck.le
      rw [← hsum] at hrep
      refine hrep.of_append ?_
      have hlen := congrArg List.length hrest
      simp only [List.length_append, List.length_singleton, List.length_map] at hlen ⊢
      omega
    · intro past round r past' round' r' h h' heq
      by_contra hne
      exact hd past round r past' round' r' h h' hne heq

/-! ## A repetition behind another call -/

theorem once_result : ([.result 0].filterMap Arrival.index?).Nodup := List.nodup_singleton 0

def callRound (name : String) : Round where
  cancelledAtTop := false
  compaction := ⟨.proceed, none, "", 0⟩
  messageId := "m"
  callStartedMs := 0
  chunks := []
  answer := .response ⟨[.toolCall ⟨"call", name, .null⟩], .toolUse, ⟨0, 0, none, none⟩⟩
  answeredMs := 0
  cancelledBeforeTools := false
  batch := ⟨fun _ => ⟨.result ⟨.str "ok", [], 0, 0⟩, 0, 0⟩, [.result 0], once_result, false⟩

/-- One `ls`, and then nothing but `bash`. -/
def lsRounds (n : ℕ) : List Round := callRound "ls" :: List.replicate n (callRound "bash")

def lsStart : Run := .start ⟨.default, [], false, 0⟩ [] (.userMessage ⟨"u", "go", [], []⟩) 0

def lsRun (n : ℕ) (h : (lsStart.after? (lsRounds n)).isSome) : Run :=
  (lsStart.after? (lsRounds n)).get h

/-- Five identical batches fail the run, and the fourth of them was executed without a word. -/
theorem stuck_unwarned : ¬ DetectsLoops lsStart (lsRounds 5) := by
  intro h
  have hfourth : Compares lsStart (lsRounds 5) (lsRounds 3) (callRound "bash")
      (lsRun 3 (by decide)) :=
    ⟨⟨[callRound "bash"], rfl⟩, (Option.some_get _).symm, by decide, by decide, by decide⟩
  have hfifth : Compares lsStart (lsRounds 5) (lsRounds 4) (callRound "bash")
      (lsRun 4 (by decide)) :=
    ⟨List.prefix_refl _, (Option.some_get _).symm, by decide, by decide, by decide⟩
  have hstuck := (Run.stuck_iff hfifth.judges).mpr (by decide)
  have hnudged := h.warned _ _ _ hfifth hstuck _ _ _ hfourth (by decide) (by decide)
  exact absurd ((Run.nudged_iff hfourth.judges).mp hnudged).1 (by decide)

end Run

end Horsie.AgentCore

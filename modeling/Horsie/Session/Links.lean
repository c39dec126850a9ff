import Horsie.Lib.Climb
import Horsie.Session.Command
import Horsie.Session.Shape

/-!
# Walking up the forest

An agent runs under the parent of the entry that hosts it (`RunForest.above`). The walks of the
forest climb these links, each given as many hops as there are entries: as long as every climb ends
that is enough, so they find all that is above an agent (`descendsFrom_iff`), count all links above
it (`depthOfAgent_eq`), and a removal finds all that was delegated below it (`mem_delegated_iff`).
-/

namespace Horsie.Session

open Lib

/-- Whether an entry of this state, under the id `id`, is the one that hosts `agent`. -/
def RunState.hosts (st : RunState) (id agent : String) : Bool :=
  match st with
  | .workflow w => w.run.steps.any (·.agent = agent)
  | .main _ | .sub _ | .subSession _ => decide (agent = id)

theorem RunState.mem_delegates {st : RunState} {id agent : String} (h : st.isDelegated = true) :
    agent ∈ (if st.sub?.isSome then [id] else st.stepAgents) ↔ st.hosts id agent = true := by
  cases st with
  | sub r => simp [RunState.sub?, RunState.hosts]
  | workflow w => simp [RunState.sub?, RunState.hosts, RunState.stepAgents]
  | main | subSession => cases h

theorem RunState.isDelegated_iff {st : RunState} :
    st.isDelegated = true ↔ st.kind ≠ .main ∧ st.kind ≠ .subSession := by
  cases st <;> simp [RunState.isDelegated, RunState.kind]

namespace RunForest

variable {f : RunForest} {a b p k id : String} {m n : ℕ}

/-- The agent that `agent` runs under. -/
def above (f : RunForest) (agent : String) : Option String :=
  (f.ownerOfAgent agent).bind (·.2.parent)

/-- The agent that delegated the work of `agent`. A main agent and a sub session work for nobody. -/
def delegator (f : RunForest) (agent : String) : Option String :=
  (f.ownerOfAgent agent).bind fun (_, e) => if e.state.isDelegated then e.parent else none

theorem ownerOfAgent_eq_some {e : RunEntry} :
    f.ownerOfAgent a = some (k, e) ↔ f.agents.lookup a = some k ∧ f.entry k = some e := by
  unfold ownerOfAgent
  constructor
  · intro h
    obtain ⟨host, hhost, h⟩ := Option.bind_eq_some_iff.mp h
    obtain ⟨e', he, hpair⟩ := Option.map_eq_some_iff.mp h
    cases hpair
    exact ⟨hhost, he⟩
  · rintro ⟨hhost, he⟩
    rw [hhost, Option.bind_some, he]
    rfl

theorem above_eq_some : f.above a = some p ↔
    ∃ k e, f.agents.lookup a = some k ∧ f.entry k = some e ∧ e.parent = some p := by
  unfold above
  rw [Option.bind_eq_some_iff]
  constructor
  · rintro ⟨⟨k, e⟩, howner, hp⟩
    obtain ⟨hk, he⟩ := ownerOfAgent_eq_some.mp howner
    exact ⟨k, e, hk, he, hp⟩
  · rintro ⟨k, e, hk, he, hp⟩
    exact ⟨(k, e), ownerOfAgent_eq_some.mpr ⟨hk, he⟩, hp⟩

theorem above_eq : f.above a = (f.agents.lookup a).bind fun k => (f.shape k).bind (·.1) := by
  unfold above ownerOfAgent shape
  cases f.agents.lookup a with
  | none => rfl
  | some k =>
    rw [Option.bind_some, Option.bind_some]
    cases f.entry k <;> rfl

theorem delegator_eq_some : f.delegator a = some p ↔ ∃ k e, f.agents.lookup a = some k ∧
    f.entry k = some e ∧ e.parent = some p ∧ e.state.isDelegated = true := by
  unfold delegator
  rw [Option.bind_eq_some_iff]
  constructor
  · rintro ⟨⟨k, e⟩, howner, hp⟩
    obtain ⟨hk, he⟩ := ownerOfAgent_eq_some.mp howner
    obtain ⟨hd, hp⟩ := Option.ite_none_right_eq_some.mp hp
    exact ⟨k, e, hk, he, hp, hd⟩
  · rintro ⟨k, e, hk, he, hp, hd⟩
    exact ⟨(k, e), ownerOfAgent_eq_some.mpr ⟨hk, he⟩, (if_pos hd).trans hp⟩

theorem above_of_delegator (h : f.delegator a = some p) : f.above a = some p := by
  obtain ⟨k, e, hk, he, hp, -⟩ := delegator_eq_some.mp h
  exact above_eq_some.mpr ⟨k, e, hk, he, hp⟩

/-! ## How far up -/

theorem climb_le (hends : Ends f.above) (h : Climbs f.above n a b) :
    n ≤ f.entries.entries.length := by
  have hlength : (f.entries.keys.map some).length = f.entries.entries.length := by
    rw [List.length_map]
    exact List.length_map _
  rw [← hlength]
  refine h.length_le f.agents.lookup hends (fun x y hxy => ?_) fun x y hxy => ?_
  · show (f.ownerOfAgent x).bind _ = (f.ownerOfAgent y).bind _
    unfold ownerOfAgent
    rw [hxy]
  · obtain ⟨k, e, hk, he, -⟩ := above_eq_some.mp hxy
    rw [hk]
    refine List.mem_map_of_mem (AList.lookup_isSome.mp ?_)
    exact Option.isSome_iff_exists.mpr ⟨e, he⟩

theorem climb_lt (hends : Ends f.above) (h : Climbs f.above n a b) (hb : (f.above b).isSome) :
    n < f.entries.entries.length := by
  obtain ⟨c, hc⟩ := Option.isSome_iff_exists.mp hb
  exact climb_le hends (h.snoc hc)

theorem descendsWithin_iff :
    f.descendsWithin b n a = true ↔ ∃ m ≤ n, Climbs f.above m a b := by
  induction n generalizing a with
  | zero =>
    unfold descendsWithin
    constructor
    · intro h
      split_ifs at h with hab
      exact ⟨0, Nat.le_refl 0, hab ▸ .refl a⟩
    · rintro ⟨m, hm, hc⟩
      obtain rfl := Nat.le_zero.mp hm
      rw [if_pos hc.eq_of_zero]
  | succ n ih =>
    unfold descendsWithin
    constructor
    · intro h
      split_ifs at h with hab
      · exact ⟨0, Nat.zero_le _, hab ▸ .refl a⟩
      · split at h
        · rename_i hops parent heq hparent
          cases heq
          obtain ⟨m, hm, hc⟩ := ih.mp h
          exact ⟨m + 1, Nat.succ_le_succ hm, .step hparent hc⟩
        · cases h
        · cases h
    · rintro ⟨m, hm, hc⟩
      by_cases hab : a = b
      · rw [if_pos hab]
      rw [if_neg hab]
      cases m with
      | zero => exact absurd hc.eq_of_zero hab
      | succ m =>
        obtain ⟨c, hlink, hrest⟩ := hc.head
        have hparent : (f.ownerOfAgent a).bind (·.2.parent) = some c := hlink
        rw [hparent]
        exact ih.mpr ⟨m, Nat.le_of_succ_le_succ hm, hrest⟩

/-- An agent is found to descend from all that it runs under, at any distance, and from itself. -/
theorem descendsFrom_iff (hends : Ends f.above) :
    f.descendsFrom a b = true ↔ ∃ n, Climbs f.above n a b := by
  unfold descendsFrom
  rw [descendsWithin_iff]
  constructor
  · rintro ⟨n, -, hc⟩
    exact ⟨n, hc⟩
  · rintro ⟨n, hc⟩
    exact ⟨n, Nat.le_succ_of_le (climb_le hends hc), hc⟩

theorem depthFrom_eq {hops depth : ℕ} (h : Climbs f.above n a b) (hb : f.above b = none)
    (hn : n ≤ hops) : f.depthFrom hops depth (f.above a) = depth + n := by
  induction h generalizing hops depth with
  | refl a =>
    rw [hb]
    cases hops <;> rfl
  | @step n a c b hlink hrest ih =>
    obtain ⟨hops, rfl⟩ := Nat.exists_eq_add_of_le' (Nat.le_trans (Nat.le_add_left 1 n) hn)
    rw [hlink]
    unfold depthFrom
    cases howner : f.ownerOfAgent c with
    | none =>
      have hc : f.above c = none := by
        unfold above
        rw [howner]
        rfl
      obtain ⟨rfl, -⟩ := hrest.of_top hc
      rfl
    | some x =>
      have hparent : x.2.parent = f.above c := by
        unfold above
        rw [howner]
        rfl
      show f.depthFrom hops (depth + 1) x.2.parent = _
      rw [hparent, ih hb (Nat.le_of_succ_le_succ hn)]
      omega

theorem depthOfAgent_eq (hends : Ends f.above) (ha : (f.ownerOfAgent a).isSome)
    (h : Climbs f.above n a b) (hb : f.above b = none) : f.depthOfAgent a = some n := by
  obtain ⟨⟨k, e⟩, howner⟩ := Option.isSome_iff_exists.mp ha
  have hparent : e.parent = f.above a := by
    unfold above
    rw [howner]
    rfl
  unfold depthOfAgent
  rw [howner]
  show some (f.depthFrom f.entries.entries.length 0 e.parent) = _
  rw [hparent, depthFrom_eq h hb (climb_le hends h), Nat.zero_add]

/-! ## What was delegated -/

/-- Whether an entry is work delegated, through any number of hands, by `id`. -/
def Doomed (f : RunForest) (id k : String) : Prop :=
  ∃ e p n, f.entry k = some e ∧ e.state.isDelegated = true ∧ e.parent = some p ∧
    Climbs f.delegator n p id

/-- Delegated work is hosted where the index says. -/
def Indexes (f : RunForest) : Prop :=
  ∀ k e a, f.entry k = some e → e.state.isDelegated = true →
    (e.state.hosts k a = true ↔ f.agents.lookup a = some k)

theorem mem_delegated_iff (hf : f.Indexes) {frontier : List String} :
    k ∈ f.delegated n frontier ↔ ∃ e p q m, m < n ∧ f.entry k = some e ∧
      e.state.isDelegated = true ∧ e.parent = some p ∧ Climbs f.delegator m p q ∧
        q ∈ frontier := by
  induction n generalizing frontier with
  | zero =>
    refine iff_of_false List.not_mem_nil ?_
    rintro ⟨e, p, q, m, hm, -⟩
    exact absurd hm (Nat.not_lt_zero m)
  | succ n ih =>
    unfold delegated
    dsimp only
    generalize hfound : f.entries.toPairs.filter (fun e =>
      e.2.parent.any (frontier.contains ·) && e.2.state.isDelegated) = found
    have hmem : ∀ j d, (j, d) ∈ found ↔ f.entry j = some d ∧ d.state.isDelegated = true ∧
        ∃ q ∈ frontier, d.parent = some q := by
      intro j d
      rw [← hfound, List.mem_filter, Map.mem_toPairs, Bool.and_eq_true, Option.any_eq_true]
      simp only [List.contains_iff_mem]
      constructor
      · rintro ⟨hj, ⟨q, hq, hin⟩, hd⟩
        exact ⟨hj, hd, q, hin, hq⟩
      · rintro ⟨hj, hd, q, hin, hq⟩
        exact ⟨hj, ⟨q, hq, hin⟩, hd⟩
    have hnext : ∀ a, a ∈ found.flatMap (fun e =>
        if e.2.state.sub?.isSome then [e.1] else e.2.state.stepAgents) ↔
          ∃ q ∈ frontier, f.delegator a = some q := by
      intro a
      rw [List.mem_flatMap]
      constructor
      · rintro ⟨⟨j, d⟩, hin, ha⟩
        obtain ⟨hj, hd, q, hq, hparent⟩ := (hmem j d).mp hin
        have hhost := (hf j d a hj hd).mp ((RunState.mem_delegates hd).mp ha)
        exact ⟨q, hq, delegator_eq_some.mpr ⟨j, d, hhost, hj, hparent, hd⟩⟩
      · rintro ⟨q, hq, ha⟩
        obtain ⟨j, d, hhost, hj, hparent, hd⟩ := delegator_eq_some.mp ha
        exact ⟨(j, d), (hmem j d).mpr ⟨hj, hd, q, hq, hparent⟩,
          (RunState.mem_delegates hd).mpr ((hf j d a hj hd).mpr hhost)⟩
    constructor
    · intro h
      split_ifs at h
      · cases h
      rcases List.mem_append.mp h with h | h
      · obtain ⟨⟨j, d⟩, hin, rfl⟩ := List.mem_map.mp h
        obtain ⟨hj, hd, q, hq, hparent⟩ := (hmem j d).mp hin
        exact ⟨d, q, q, 0, Nat.succ_pos n, hj, hd, hparent, .refl q, hq⟩
      · obtain ⟨e, p, a, m, hm, hk, hd, hparent, hc, ha⟩ := ih.mp h
        obtain ⟨q, hq, hlink⟩ := (hnext a).mp ha
        exact ⟨e, p, q, m + 1, Nat.succ_lt_succ hm, hk, hd, hparent, hc.snoc hlink, hq⟩
    · rintro ⟨e, p, q, m, hm, hk, hd, hparent, hc, hq⟩
      -- something is found at once: the entry itself, or the one at the end of its climb
      cases m with
      | zero =>
        obtain rfl := hc.eq_of_zero
        have hin := (hmem k e).mpr ⟨hk, hd, p, hq, hparent⟩
        rw [if_neg (by simpa [List.isEmpty_iff] using List.ne_nil_of_mem hin)]
        exact List.mem_append_left _ (List.mem_map.mpr ⟨(k, e), hin, rfl⟩)
      | succ m =>
        obtain ⟨a, hclimb, hlink⟩ := hc.last
        have ha := (hnext a).mpr ⟨q, hq, hlink⟩
        obtain ⟨x, hin, -⟩ := List.mem_flatMap.mp ha
        rw [if_neg (by simpa [List.isEmpty_iff] using List.ne_nil_of_mem hin)]
        refine List.mem_append_right _ (ih.mpr ?_)
        exact ⟨e, p, a, m, Nat.lt_of_succ_lt_succ hm, hk, hd, hparent, hclimb, ha⟩

theorem mem_delegated_iff_doomed (hf : f.Indexes) (hends : Ends f.above)
    (hid : (f.above id).isSome) :
    k ∈ f.delegated f.entries.entries.length [id] ↔ f.Doomed id k := by
  rw [mem_delegated_iff hf]
  constructor
  · rintro ⟨e, p, q, m, -, hk, hd, hparent, hc, hq⟩
    obtain rfl := List.mem_singleton.mp hq
    exact ⟨e, p, m, hk, hd, hparent, hc⟩
  · rintro ⟨e, p, m, hk, hd, hparent, hc⟩
    have hclimb : Climbs f.above m p id := hc.mono fun _ _ => above_of_delegator
    exact ⟨e, p, id, m, climb_lt hends hclimb hid, hk, hd, hparent, hc,
      List.mem_singleton.mpr rfl⟩

/-! ## Removals -/

/-- Whether `id` names what may be removed: a subagent or a sub session. -/
def Removable (f : RunForest) (id : String) : Prop :=
  (f.sub id).isSome ∨ (f.subSession id).isSome

theorem removable_iff : f.Removable id ↔
    ∃ parent kind, f.shape id = some (parent, kind) ∧ (kind = .sub ∨ kind = .subSession) := by
  unfold Removable sub subSession shape
  cases f.entry id with
  | none => simp
  | some e =>
    obtain ⟨parent, st⟩ := e
    cases st <;> simp [RunState.sub?, RunState.subSession?, RunState.kind]

theorem applyAgentDeleted_of_not (h : ¬ f.Removable id) : f.applyAgentDeleted id = f := by
  unfold applyAgentDeleted
  exact if_neg fun hid => h ((Bool.or_eq_true _ _).mp hid)

theorem entry_deleted (h : f.Removable id) : (f.applyAgentDeleted id).entry k =
    if k ∈ f.delegated f.entries.entries.length [id] ∨ k = id then none else f.entry k := by
  unfold applyAgentDeleted entry
  rw [if_pos ((Bool.or_eq_true _ _).mpr h), Map.lookup_retain]
  cases f.entries.lookup k with
  | none => exact (ite_self _).symm
  | some e =>
    rw [Option.filter_some]
    split_ifs with hkeep hgone hgone
    · simp_all
    · rfl
    · rfl
    · simp_all

theorem lookup_deleted {host : String} (h : f.Removable id) (ha : f.agents.lookup a = some host) :
    (f.applyAgentDeleted id).agents.lookup a =
      if a ∈ f.delegated f.entries.entries.length [id] ∨
          host ∈ f.delegated f.entries.entries.length [id] ∨ a = id then none
      else some host := by
  unfold applyAgentDeleted
  rw [if_pos ((Bool.or_eq_true _ _).mpr h), Map.lookup_retain, ha, Option.filter_some]
  split_ifs with hkeep hgone hgone
  · simp_all
  · rfl
  · rfl
  · simp_all

theorem lookup_deleted_none (ha : f.agents.lookup a = none) :
    (f.applyAgentDeleted id).agents.lookup a = none := by
  unfold applyAgentDeleted
  split_ifs
  · rw [Map.lookup_retain, ha]
    rfl
  · exact ha

theorem root_deleted : (f.applyAgentDeleted id).root = f.root := by
  unfold applyAgentDeleted
  split_ifs <;> rfl

end RunForest

end Horsie.Session

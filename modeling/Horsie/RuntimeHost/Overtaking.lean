import Horsie.Lib.Take
import Horsie.RuntimeHost.Vendor

/-!
# A cancel and its call

The server sends a cancel after its call, and the vendor's process reads them in that order. Each is
then forwarded by a task of its own, and the cancel's may be the first: the runtime finds nothing to
cancel, and runs the call it gets next. The order is kept as long as every cancel is forwarded
behind its call (`cancels_in_order`).
-/

namespace Horsie.RuntimeHost

open Horsie.Lib

namespace Vendor

/-! ## The property -/

/-- The command `q` is a cancel of the call `p`, sent later. -/
def Cancels (v : Vendor) (q p : ℕ) : Prop :=
  p < q ∧ ∃ runtime callId, v.commands[p]? = some (.call runtime callId) ∧
    v.commands[q]? = some (.cancel runtime callId)

/-- A cancel leaves the vendor behind its call and reaches the runtime behind it, and leaves no call
running. -/
structure InOrder (v : Vendor) : Prop where
  leaves : ∀ p q, v.Cancels q p → v.phase q = .ended ∨ (∃ conn, v.phase q = .queued conn) →
    v.phase p ≠ .spawned ∧ ∀ conn, v.phase p ≠ .forwarding conn
  reaches : ∀ conn, (v.queue conn).Pairwise fun i j => ¬ v.Cancels i j
  stops : ∀ p q, v.Cancels q p → v.phase q = .ended → v.phase p = .ended

/-! ## The condition -/

/-- Every call a cancel names is over, or was written to the connection the cancel is written to. -/
def settled (v : Vendor) (i : ℕ) (dest : Option Conn) : Bool :=
  match v.commands[i]? with
  | some (.cancel runtime callId) => (List.range i).all fun p =>
      decide (v.commands[p]? ≠ some (.call runtime callId)) || decide (v.phase p = .ended) ||
        dest.any fun conn => decide ((v.phase p).conn = some conn)
  | _ => true

def unusedId (v : Vendor) (runtime callId : String) : Bool :=
  (List.range v.commands.length).all fun p =>
    decide (v.commands[p]? ≠ some (.call runtime callId)) || decide (v.phase p = .ended)

/-- No id is used twice, and a cancel leaves the vendor only behind its call. -/
def keepsOrder (v : Vendor) : Label → Bool
  | .send (.call runtime callId) => v.unusedId runtime callId
  | .resolve i => (v.relayOf i).all fun x => (v.runtimes x.1).isSome || v.settled i none
  | .forward i =>
    match v.phase i with
    | .forwarding conn => v.settled i (if conn ∈ v.dead then none else some conn)
    | _ => true
  | _ => true

/-! ## The invariant -/

/-- A call, named by what it is sent under. -/
def IsCall (v : Vendor) (i : ℕ) (runtime callId : String) : Prop :=
  v.commands[i]? = some (.call runtime callId)

/-- A connection is one runtime's, what is executed there is in the map or about to be, and a cancel
on a connection is behind its call. -/
structure Ordered (v : Vendor) : Prop where
  queued : ∀ conn i, i ∈ v.queue conn ↔ v.phase i = .queued conn
  nodup : ∀ conn, (v.queue conn).Nodup
  conns : ∀ runtime conn, v.runtimes runtime = some conn → conn.runtime = runtime
  dest : ∀ i conn, v.phase i = .forwarding conn ∨ (v.phase i).conn = some conn →
    ∃ callId, v.relayOf i = some (conn.runtime, callId)
  held : ∀ i lock, (v.phase i).held = some lock → v.relayOf i = none
  calls : ∀ i conn, v.phase i = .running conn ∨ v.registering conn = some i ∨
    (∃ callId, v.handles conn callId = some i) → ∃ callId, v.IsCall i conn.runtime callId
  taken : ∀ i conn, v.registering conn = some i ∨ (∃ callId, v.handles conn callId = some i) →
    v.phase i = .running conn ∨ v.phase i = .ended
  once : ∀ i j runtime callId, v.IsCall i runtime callId → v.IsCall j runtime callId →
    v.phase i ≠ .ended → v.phase j ≠ .ended → i = j
  found : ∀ i conn callId, v.phase i = .running conn → v.IsCall i conn.runtime callId →
    v.registering conn = some i ∨ v.handles conn callId = some i
  alone : ∀ i j conn callId, v.registering conn = some i → v.IsCall i conn.runtime callId →
    v.phase j = .running conn → v.IsCall j conn.runtime callId → j = i
  behind : ∀ p q conn, v.Cancels q p → v.phase q = .queued conn →
    v.phase p = .ended ∨ (v.phase p).conn = some conn
  order : ∀ conn, (v.queue conn).Pairwise fun i j => ¬ v.Cancels i j
  stops : ∀ p q, v.Cancels q p → v.phase q = .ended → v.phase p = .ended

variable {v v' : Vendor}

theorem Ordered.inOrder (h : v.Ordered) : v.InOrder := by
  refine ⟨fun p q hc hq => ?_, h.order, h.stops⟩
  have hp : v.phase p = .ended ∨ ∃ conn, (v.phase p).conn = some conn := by
    rcases hq with hq | ⟨conn, hq⟩
    · exact .inl (h.stops p q hc hq)
    · exact (h.behind p q conn hc hq).imp_right fun hp => ⟨conn, hp⟩
  rcases hp with hp | ⟨conn, hp⟩
  · rw [hp]
    exact ⟨Phase.noConfusion, fun _ => Phase.noConfusion⟩
  · refine ⟨fun he => ?_, fun _ he => ?_⟩ <;>
    · rw [he] at hp
      cases hp

theorem Ordered.init (respawnable : Bool) : (init respawnable).Ordered where
  queued conn i := by simp [Vendor.init]
  nodup _ := List.nodup_nil
  conns _ _ h := by cases h
  dest _ _ h := by rcases h with h | h <;> cases h
  held _ _ h := by cases h
  calls _ _ h := by rcases h with h | h | ⟨_, h⟩ <;> cases h
  taken _ _ h := by rcases h with h | ⟨_, h⟩ <;> cases h
  once _ _ _ _ h := by cases h
  found _ _ _ h := by cases h
  alone _ _ _ _ h := by cases h
  behind _ _ _ _ h := by cases h
  order _ := .nil
  stops _ _ _ h := by cases h

/-! ## Steps -/

/-- A step that moves no message: tasks go on that have no connection. -/
structure Aside (v v' : Vendor) : Prop where
  commands : v'.commands = v.commands
  runtimes : ∀ runtime conn, v'.runtimes runtime = some conn → conn.runtime = runtime
  queue : v'.queue = v.queue
  registering : v'.registering = v.registering
  handles : v'.handles = v.handles
  phase : ∀ i, v'.phase i = v.phase i ∨ (v.relayOf i = none ∧ (v.phase i).conn = none ∧
    (v'.phase i).conn = none ∧ ∀ conn, v'.phase i ≠ .forwarding conn)

variable {callId : String} {i : ℕ}

theorem relayOf_of_isCall {runtime : String} (h : v.IsCall i runtime callId) :
    v.relayOf i = some (runtime, callId) := by
  unfold relayOf
  rw [show v.commands[i]? = _ from h]
  rfl

theorem Cancels.isCall {p q : ℕ} (h : v.Cancels q p) :
    ∃ runtime callId, v.IsCall p runtime callId ∧ v.relayOf q = some (runtime, callId) := by
  obtain ⟨-, runtime, callId, hp, hq⟩ := h
  refine ⟨runtime, callId, hp, ?_⟩
  unfold relayOf
  rw [hq]
  rfl

theorem Cancels.not_isCall {p q : ℕ} (h : v.Cancels q p) (runtime callId : String) :
    ¬ v.IsCall q runtime callId := by
  obtain ⟨-, _, _, -, hq⟩ := h
  intro hcall
  cases hq.symm.trans hcall

theorem Ordered.aside (h : v.Ordered) (ha : Aside v v') : v'.Ordered := by
  have hcall : ∀ i r c, v'.IsCall i r c ↔ v.IsCall i r c := fun i r c => by
    unfold IsCall
    rw [ha.commands]
  have hof : ∀ i, v'.relayOf i = v.relayOf i := fun i => by
    unfold relayOf
    rw [ha.commands]
  have hcancels : ∀ q p, v'.Cancels q p ↔ v.Cancels q p := fun q p => by
    unfold Cancels
    rw [ha.commands]
  have hphase : ∀ i, (v.relayOf i).isSome = true → v'.phase i = v.phase i := by
    intro i hi
    rcases ha.phase i with he | ⟨hno, -⟩
    · exact he
    · rw [hno] at hi
      cases hi
  have hconn : ∀ i conn, (v'.phase i).conn = some conn → v'.phase i = v.phase i := by
    intro i conn hi
    rcases ha.phase i with he | ⟨-, -, hno, -⟩
    · exact he
    · rw [hno] at hi
      cases hi
  have hisCall : ∀ {i r c}, v.IsCall i r c → v'.phase i = v.phase i := fun hi =>
    hphase _ (by rw [relayOf_of_isCall hi]; rfl)
  refine ⟨fun conn i => ?_, ?_, ha.runtimes, fun i conn hi => ?_, fun i lock hi => ?_,
    fun i conn hi => ?_, fun i conn hi => ?_, ?_, ?_, ?_, ?_, ?_, ?_⟩
  · rw [ha.queue, h.queued]
    rcases ha.phase i with he | ⟨-, hno, hno', -⟩
    · rw [he]
    · exact iff_of_false (fun hq => by rw [hq] at hno; cases hno)
        fun hq => by rw [hq] at hno'; cases hno'
  · rw [ha.queue]
    exact h.nodup
  · rw [hof]
    rcases ha.phase i with he | ⟨-, -, hno, hfwd⟩
    · rw [he] at hi
      exact h.dest i conn hi
    · rcases hi with hi | hi
      · exact absurd hi (hfwd conn)
      · rw [hno] at hi
        cases hi
  · rw [hof]
    rcases ha.phase i with he | ⟨hno, -⟩
    · rw [he] at hi
      exact h.held i lock hi
    · exact hno
  · simp only [hcall]
    rw [ha.registering, ha.handles] at hi
    refine h.calls i conn (hi.imp_left fun hrun => ?_)
    rwa [hconn i conn (by rw [hrun]; rfl)] at hrun
  · rw [ha.registering, ha.handles] at hi
    obtain ⟨_, hc⟩ := h.calls i conn (.inr hi)
    rw [hisCall hc]
    exact h.taken i conn hi
  · intro i j r c hi hj hpi hpj
    rw [hcall] at hi hj
    rw [hisCall hi] at hpi
    rw [hisCall hj] at hpj
    exact h.once i j r c hi hj hpi hpj
  · intro i conn c hi hc
    rw [hcall] at hc
    rw [hisCall hc] at hi
    rw [ha.registering, ha.handles]
    exact h.found i conn c hi hc
  · intro i j conn c hi hc hj hcj
    rw [hcall] at hc hcj
    rw [ha.registering] at hi
    rw [hisCall hcj] at hj
    exact h.alone i j conn c hi hc hj hcj
  · intro p q conn hc hq
    rw [hcancels] at hc
    obtain ⟨_, _, hp, hq'⟩ := hc.isCall
    rw [hphase q (by rw [hq']; rfl)] at hq
    rw [hisCall hp]
    exact h.behind p q conn hc hq
  · rw [ha.queue]
    simp only [hcancels]
    exact h.order
  · intro p q hc hq
    rw [hcancels] at hc
    obtain ⟨_, _, hp, hq'⟩ := hc.isCall
    rw [hphase q (by rw [hq']; rfl)] at hq
    rw [hisCall hp]
    exact h.stops p q hc hq

theorem Ordered.setPhase (h : v.Ordered) {phase : Phase} (hi : v.relayOf i = none)
    (hconn : phase.conn = none) (hfwd : ∀ conn, phase ≠ .forwarding conn) :
    (v.setPhase i phase).Ordered := by
  refine h.aside ⟨rfl, h.conns, rfl, rfl, rfl, fun j => ?_⟩
  by_cases hj : j = i
  · subst hj
    refine .inr ⟨hi, ?_, by simpa [Vendor.setPhase], by simpa [Vendor.setPhase]⟩
    -- it is on no connection, which are those of relays
    cases hc : (v.phase j).conn with
    | none => rfl
    | some conn =>
      obtain ⟨_, hx⟩ := h.dest j conn (.inr hc)
      rw [hi] at hx
      cases hx
  · exact .inl (Function.update_of_ne hj _ _)

theorem Ordered.move (h : v.Ordered) {phase : Phase}
    (hi : v.phase i = .spawned ∨ ∃ conn, v.phase i = .forwarding conn)
    (hnew : phase = .ended ∨ ∃ conn callId, phase = .forwarding conn ∧
      v.relayOf i = some (conn.runtime, callId))
    (hsettled : phase = .ended → ∀ p, v.Cancels i p → v.phase p = .ended) :
    (v.setPhase i phase).Ordered := by
  have hold : v.phase i ≠ .ended ∧ (v.phase i).conn = none := by
    rcases hi with hi | ⟨conn, hi⟩ <;> rw [hi] <;> exact ⟨Phase.noConfusion, rfl⟩
  have hconn : phase.conn = none := by
    rcases hnew with rfl | ⟨_, _, rfl, -⟩ <;> rfl
  have hphase : ∀ j, (v.setPhase i phase).phase j = if j = i then phase else v.phase j :=
    fun j => Function.update_apply _ _ _ _
  have hof : ∀ j conn, ((v.setPhase i phase).phase j).conn = some conn →
      j ≠ i ∧ (v.phase j).conn = some conn := by
    intro j conn hj
    rw [hphase] at hj
    split_ifs at hj with hji
    · rw [hconn] at hj
      cases hj
    · exact ⟨hji, hj⟩
  have hrun : ∀ j conn, (v.setPhase i phase).phase j = .running conn →
      v.phase j = .running conn := by
    intro j conn hj
    obtain ⟨hji, -⟩ := hof j conn (by rw [hj]; rfl)
    rwa [hphase, if_neg hji] at hj
  have hover : ∀ j, (v.setPhase i phase).phase j ≠ .ended → v.phase j ≠ .ended := by
    intro j hj he
    rw [hphase] at hj
    split_ifs at hj with hji
    · exact hold.1 (hji ▸ he)
    · exact hj he
  refine ⟨fun conn j => ?_, h.nodup, h.conns, fun j conn hj => ?_, fun j lock hj => ?_,
    fun j conn hj => ?_, fun j conn hj => ?_, ?_, ?_, ?_, ?_, h.order, ?_⟩
  · rw [hphase]
    split_ifs with hji
    · subst hji
      refine (h.queued conn j).trans (iff_of_false ?_ ?_) <;> intro hq
      · rw [hq] at hold
        cases hold.2
      · rw [hq] at hconn
        cases hconn
    · exact h.queued conn j
  · rcases hj with hj | hj
    · rw [hphase] at hj
      split_ifs at hj with hji
      · subst hji
        rcases hnew with hn | ⟨conn', callId, hn, hr⟩
        · cases hn.symm.trans hj
        · cases hn.symm.trans hj
          exact ⟨callId, hr⟩
      · exact h.dest j conn (.inl hj)
    · exact h.dest j conn (.inr (hof j conn hj).2)
  · rw [hphase] at hj
    split_ifs at hj
    · rcases hnew with rfl | ⟨_, _, rfl, -⟩ <;> cases hj
    · exact h.held j lock hj
  · exact h.calls j conn (hj.imp_left (hrun j conn))
  · have hp := h.taken j conn hj
    rw [hphase, if_neg]
    · exact hp
    · rintro rfl
      rcases hp with hp | hp
      · rw [hp] at hold
        cases hold.2
      · exact hold.1 hp
  · exact fun j k r c hj hk hpj hpk => h.once j k r c hj hk (hover j hpj) (hover k hpk)
  · exact fun j conn c hj hc => h.found j conn c (hrun j conn hj) hc
  · exact fun j k conn c hj hc hk hck => h.alone j k conn c hj hc (hrun k conn hk) hck
  · intro p q conn hc hq
    have hq' : v.phase q = .queued conn := by
      obtain ⟨hqi, -⟩ := hof q conn (by rw [hq]; rfl)
      rwa [hphase, if_neg hqi] at hq
    have hb := h.behind p q conn hc hq'
    rw [hphase, if_neg]
    · exact hb
    · rintro rfl
      rcases hb with hb | hb
      · exact hold.1 hb
      · rw [hold.2] at hb
        cases hb
  · intro p q hc hq
    have hp : v.phase p = .ended := by
      rw [hphase] at hq
      split_ifs at hq with hqi
      · subst hqi
        exact hsettled hq p hc
      · exact h.stops p q hc hq
    rw [hphase, if_neg]
    · exact hp
    · rintro rfl
      exact hold.1 hp

/-- A step in which messages and calls end, and nothing else. -/
structure Ends (v v' : Vendor) : Prop where
  commands : v'.commands = v.commands
  runtimes : v'.runtimes = v.runtimes
  phase : ∀ i, v'.phase i = v.phase i ∨ v'.phase i = .ended
  queue : ∀ conn, (v'.queue conn).Sublist (v.queue conn)
  queued : ∀ conn i, v.phase i = .queued conn → (i ∈ v'.queue conn ↔ v'.phase i = .queued conn)
  registering : ∀ conn i, v'.registering conn = some i → v.registering conn = some i
  handles : ∀ conn callId i, v'.handles conn callId = some i → v.handles conn callId = some i
  found : ∀ i conn callId, v'.phase i = .running conn → v.IsCall i conn.runtime callId →
    v'.registering conn = some i ∨ v'.handles conn callId = some i
  stops : ∀ p q, v.Cancels q p → v'.phase q = .ended → v'.phase p = .ended

theorem Ordered.ends (h : v.Ordered) (he : Ends v v') : v'.Ordered := by
  have hcall : ∀ i r c, v'.IsCall i r c ↔ v.IsCall i r c := fun i r c => by
    unfold IsCall
    rw [he.commands]
  have hof : ∀ i, v'.relayOf i = v.relayOf i := fun i => by
    unfold relayOf
    rw [he.commands]
  have hcancels : ∀ q p, v'.Cancels q p ↔ v.Cancels q p := fun q p => by
    unfold Cancels
    rw [he.commands]
  have hsame : ∀ i, v'.phase i ≠ .ended → v'.phase i = v.phase i := fun i hi =>
    (he.phase i).resolve_right hi
  have hover : ∀ i, v'.phase i ≠ .ended → v.phase i ≠ .ended := fun i hi => by
    rwa [← hsame i hi]
  have hconn : ∀ i conn, (v'.phase i).conn = some conn → v'.phase i = v.phase i := by
    intro i conn hi
    refine hsame i fun ho => ?_
    rw [ho] at hi
    cases hi
  have hrun : ∀ i conn, v'.phase i = .running conn → v.phase i = .running conn := by
    intro i conn hi
    rw [← hconn i conn (by rw [hi]; rfl)]
    exact hi
  have hthere : ∀ i conn, v'.registering conn = some i ∨
      (∃ callId, v'.handles conn callId = some i) →
      v.registering conn = some i ∨ ∃ callId, v.handles conn callId = some i := fun i conn hi =>
    hi.imp (he.registering conn i) fun ⟨callId, hi⟩ => ⟨callId, he.handles conn callId i hi⟩
  refine ⟨fun conn i => ⟨fun hi => ?_, fun hi => ?_⟩,
    fun conn => (h.nodup conn).sublist (he.queue conn), he.runtimes ▸ h.conns,
    fun i conn hi => ?_, fun i lock hi => ?_, fun i conn hi => ?_,
    fun i conn hi => ?_, fun i j r c hi hj hpi hpj => ?_, fun i conn c hi hc => ?_,
    fun i j conn c hi hc hj hcj => ?_, fun p q conn hc hq => ?_, fun conn => ?_,
    fun p q hc hq => ?_⟩
  · exact (he.queued conn i ((h.queued conn i).mp ((he.queue conn).subset hi))).mp hi
  · have hi' : v.phase i = .queued conn := by
      rw [← hconn i conn (by rw [hi]; rfl)]
      exact hi
    exact (he.queued conn i hi').mpr hi
  · rw [hof]
    refine h.dest i conn (hi.imp (fun hi => ?_) fun hi => ?_)
    · rw [← hsame i (by rw [hi]; exact Phase.noConfusion)]
      exact hi
    · rw [← hconn i conn hi]
      exact hi
  · rw [hof]
    refine h.held i lock ?_
    rw [← hsame i (by intro ho; rw [ho] at hi; cases hi)]
    exact hi
  · simp only [hcall]
    exact h.calls i conn (hi.imp (hrun i conn) (hthere i conn))
  · rcases he.phase i with hp | hp
    · rw [hp]
      exact h.taken i conn (hthere i conn hi)
    · exact .inr hp
  · rw [hcall] at hi hj
    exact h.once i j r c hi hj (hover i hpi) (hover j hpj)
  · rw [hcall] at hc
    exact he.found i conn c hi hc
  · rw [hcall] at hc hcj
    exact h.alone i j conn c (he.registering conn i hi) hc (hrun j conn hj) hcj
  · rw [hcancels] at hc
    have hq' : v.phase q = .queued conn := by
      rw [← hconn q conn (by rw [hq]; rfl)]
      exact hq
    rcases he.phase p with hp | hp
    · rw [hp]
      exact h.behind p q conn hc hq'
    · exact .inl hp
  · simp only [hcancels]
    exact (h.order conn).sublist (he.queue conn)
  · rw [hcancels] at hc
    exact he.stops p q hc hq

theorem Ordered.clear (h : v.Ordered) (conn : Conn) : (v.clear conn).Ordered := by
  have hphase : ∀ i, (v.clear conn).phase i =
      if (v.phase i).conn = some conn then .ended else v.phase i := fun _ => rfl
  have hqueue : ∀ conn', (v.clear conn).queue conn' = if conn' = conn then [] else v.queue conn' :=
    fun _ => Function.update_apply _ _ _ _
  have hreg : ∀ conn', (v.clear conn).registering conn' =
      if conn' = conn then none else v.registering conn' :=
    fun _ => Function.update_apply _ _ _ _
  have hhandles : ∀ conn', (v.clear conn).handles conn' =
      if conn' = conn then fun _ => none else v.handles conn' :=
    fun _ => Function.update_apply _ _ _ _
  have hgone : ∀ i, v.phase i = .ended ∨ (v.phase i).conn = some conn →
      (v.clear conn).phase i = .ended := by
    intro i hi
    rw [hphase]
    split_ifs with hc
    · rfl
    · exact hi.resolve_right hc
  refine h.ends ⟨rfl, rfl, fun i => ?_, fun conn' => ?_, fun conn' i hi => ?_,
    fun conn' i hi => ?_, fun conn' callId i hi => ?_, fun i conn' callId hi hc => ?_,
    fun p q hc hq => ?_⟩
  · rw [hphase]
    split_ifs
    · exact .inr rfl
    · exact .inl rfl
  · rw [hqueue]
    split_ifs
    · exact List.nil_sublist _
    · exact List.Sublist.refl _
  · rw [hqueue, hphase, hi]
    by_cases hc : conn' = conn
    · have hc' : (Phase.queued conn').conn = some conn := congrArg some hc
      rw [if_pos hc, if_pos hc']
      exact iff_of_false List.not_mem_nil (by rintro ⟨⟩)
    · have hc' : (Phase.queued conn').conn ≠ some conn := fun he => hc (Option.some.inj he)
      rw [if_neg hc, if_neg hc']
      exact iff_of_true ((h.queued conn' i).mpr hi) rfl
  · rw [hreg] at hi
    split_ifs at hi
    exact hi
  · rw [hhandles] at hi
    split_ifs at hi
    exact hi
  · rw [hphase] at hi
    split_ifs at hi with hne
    have hc' : conn' ≠ conn := fun he => hne (by rw [hi]; exact congrArg some he)
    rw [hreg, hhandles, if_neg hc', if_neg hc']
    exact h.found i conn' callId hi hc
  · -- a cancel that was on the connection is behind calls that are over or were there, too
    by_cases hq' : v.phase q = .ended
    · exact hgone p (.inl (h.stops p q hc hq'))
    · rw [hphase] at hq
      split_ifs at hq with hqc
      · cases hqp : v.phase q with
        | queued conn' =>
          rw [hqp] at hqc
          obtain rfl := Option.some.inj hqc
          exact hgone p (h.behind p q conn' hc hqp)
        | running conn' =>
          obtain ⟨c, hcall⟩ := h.calls q conn' (.inl hqp)
          exact absurd hcall (hc.not_isCall conn'.runtime c)
        | spawned | waiting _ | executing _ _ | retired _ | forwarding _ | ended =>
          rw [hqp] at hqc
          cases hqc
      · exact absurd hq hq'

theorem Ordered.halt (h : v.Ordered) (runtime : String) : (v.halt runtime).Ordered := by
  unfold Vendor.halt
  split
  · rename_i conn _
    have hc := h.clear conn
    refine hc.aside ⟨rfl, fun r conn' hr => ?_, rfl, rfl, rfl, fun _ => .inl rfl⟩
    simp only [Function.update_apply] at hr
    split_ifs at hr
    exact h.conns r conn' hr
  · exact h

/-- The message `i` is behind the others of a connection. -/
def write (v : Vendor) (i : ℕ) (conn : Conn) : Vendor :=
  { v.setPhase i (.queued conn) with
    queue := Function.update v.queue conn (v.queue conn ++ [i]) }

variable {conn : Conn}

theorem Ordered.write (h : v.Ordered) (hi : v.phase i = .forwarding conn)
    (hsettled : ∀ p, v.Cancels i p → v.phase p = .ended ∨ (v.phase p).conn = some conn) :
    (v.write i conn).Ordered := by
  have hphase : ∀ j, (v.write i conn).phase j = if j = i then .queued conn else v.phase j :=
    fun j => Function.update_apply _ _ _ _
  have hnot : ∀ c, i ∉ v.queue c := fun c hc => by
    rw [h.queued, hi] at hc
    cases hc
  have hqueue : ∀ c, (v.write i conn).queue c =
      if c = conn then v.queue conn ++ [i] else v.queue c := fun c =>
    Function.update_apply _ _ _ _
  have hrun : ∀ j c, (v.write i conn).phase j = .running c →
      v.phase j = .running c := by
    intro j c hj
    rw [hphase] at hj
    split_ifs at hj
    exact hj
  have hover : ∀ j, (v.write i conn).phase j ≠ .ended → v.phase j ≠ .ended := by
    intro j hj he
    rw [hphase] at hj
    split_ifs at hj with hji
    · rw [hji, hi] at he
      cases he
    · exact hj he
  have hbefore : ∀ p q, v.Cancels q p → v.phase q = .ended ∨ (v.phase q).conn ≠ none → p ≠ i := by
    rintro p q hc hq rfl
    rcases hq with hq | hq
    · cases hi.symm.trans (h.stops p q hc hq)
    · cases hqp : v.phase q with
      | queued c =>
        rcases h.behind p q c hc hqp with hp | hp <;> rw [hi] at hp <;> cases hp
      | running c =>
        obtain ⟨callId, hcall⟩ := h.calls q c (.inl hqp)
        exact hc.not_isCall c.runtime callId hcall
      | spawned | waiting _ | executing _ _ | retired _ | forwarding _ | ended =>
        rw [hqp] at hq
        exact hq rfl
  refine ⟨fun c j => ?_, fun c => ?_, h.conns, fun j c hj => ?_, fun j lock hj => ?_,
    fun j c hj => ?_, fun j c hj => ?_, ?_, ?_, ?_, fun p q c hc hq => ?_, fun c => ?_,
    fun p q hc hq => ?_⟩
  · rw [hqueue, hphase]
    split_ifs with hc hj hj
    · simp [hc, hj]
    · rw [List.mem_append, List.mem_singleton, or_iff_left hj, ← hc]
      exact h.queued c j
    · rw [hj]
      exact iff_of_false (hnot c) fun hq => hc (Phase.queued.inj hq).symm
    · exact h.queued c j
  · rw [hqueue]
    split_ifs
    · refine List.nodup_append.mpr ⟨h.nodup conn, List.pairwise_singleton _ _, fun a ha b hb => ?_⟩
      rw [List.mem_singleton.mp hb]
      rintro rfl
      exact hnot conn ha
    · exact h.nodup c
  · rw [hphase] at hj
    split_ifs at hj with hji
    · subst hji
      refine h.dest j c (.inl ?_)
      rcases hj with hj | hj
      · cases hj
      · rw [hi, Option.some.inj hj]
    · exact h.dest j c hj
  · rw [hphase] at hj
    split_ifs at hj
    · cases hj
    · exact h.held j lock hj
  · exact h.calls j c (hj.imp_left (hrun j c))
  · have hp := h.taken j c hj
    rw [hphase, if_neg]
    · exact hp
    · rintro rfl
      rw [hi] at hp
      rcases hp with hp | hp <;> cases hp
  · exact fun j k r c hj hk hpj hpk => h.once j k r c hj hk (hover j hpj) (hover k hpk)
  · exact fun j c callId hj hcall => h.found j c callId (hrun j c hj) hcall
  · exact fun j k c callId hj hcall hk hcall' => h.alone j k c callId hj hcall (hrun k c hk) hcall'
  · rw [hphase] at hq
    split_ifs at hq with hqi
    · subst hqi
      cases hq
      have hpq : p ≠ q := Nat.ne_of_lt hc.1
      rw [hphase, if_neg hpq]
      exact hsettled p hc
    · rw [hphase, if_neg (hbefore p q hc (.inr (by rw [hq]; exact Option.some_ne_none _)))]
      exact h.behind p q c hc hq
  · rw [hqueue]
    split_ifs with hc
    · refine List.pairwise_append.mpr ⟨h.order conn, List.pairwise_singleton _ _, ?_⟩
      intro a ha b hb hcancels
      rw [List.mem_singleton.mp hb] at hcancels
      -- the cancel was on the connection before the call that is written now
      refine hbefore i a hcancels (.inr ?_) rfl
      rw [(h.queued conn a).mp ha]
      exact Option.some_ne_none _
    · exact h.order c
  · rw [hphase] at hq
    split_ifs at hq with hqi
    rw [hphase, if_neg (hbefore p q hc (.inl hq))]
    exact h.stops p q hc hq

variable {rest : List ℕ}

theorem queue_head (h : v.Ordered)
    (hq : v.queue conn = i :: rest) :
    v.phase i = .queued conn ∧ i ∉ rest ∧ ∀ j, j ∈ rest ↔ v.phase j = .queued conn ∧ j ≠ i := by
  have hn := h.nodup conn
  rw [hq, List.nodup_cons] at hn
  have hmem : ∀ j, j = i ∨ j ∈ rest ↔ v.phase j = .queued conn := fun j => by
    rw [← h.queued, hq, List.mem_cons]
  refine ⟨(hmem i).mp (.inl rfl), hn.1, fun j => ⟨fun hj => ?_, fun hj => ?_⟩⟩
  · refine ⟨(hmem j).mp (.inr hj), ?_⟩
    rintro rfl
    exact hn.1 hj
  · exact ((hmem j).mpr hj.1).resolve_left hj.2

theorem Ordered.takeCall (h : v.Ordered) (hq : v.queue conn = i :: rest)
    (hreg : v.registering conn = none)
    (hcall : v.IsCall i conn.runtime callId) (hv' : v' =
      { v with
        queue := Function.update v.queue conn rest
        phase := Function.update v.phase i (.running conn)
        registering := Function.update v.registering conn (some i) }) : v'.Ordered := by
  obtain ⟨hi, hirest, hrest⟩ := queue_head h hq
  have hphase : ∀ j, v'.phase j = if j = i then .running conn else v.phase j := fun j => by
    rw [hv']
    exact Function.update_apply _ _ _ _
  have hqueue : ∀ c, v'.queue c = if c = conn then rest else v.queue c := fun c => by
    rw [hv']
    exact Function.update_apply _ _ _ _
  have hreg' : ∀ c, v'.registering c = if c = conn then some i else v.registering c := fun c => by
    rw [hv']
    exact Function.update_apply _ _ _ _
  have hcommands : v'.commands = v.commands := by rw [hv']
  have hhandles : v'.handles = v.handles := by rw [hv']
  have hof : v'.relayOf = v.relayOf := by
    funext j
    unfold relayOf
    rw [hcommands]
  have hIsCall : v'.IsCall = v.IsCall := by
    funext j r c
    unfold IsCall
    rw [hcommands]
  have hCancels : v'.Cancels = v.Cancels := by
    funext q p
    unfold Cancels
    rw [hcommands]
  have hiover : v.phase i ≠ .ended := by rw [hi]; exact Phase.noConfusion
  have hover : ∀ j, v'.phase j ≠ .ended → v.phase j ≠ .ended := by
    intro j hj he
    rw [hphase, if_neg (by rintro rfl; exact hiover he)] at hj
    exact hj he
  have hconn : ∀ j c, (v'.phase j).conn = some c → (v.phase j).conn = some c := by
    intro j c hj
    rw [hphase] at hj
    split_ifs at hj with hji
    · rw [hji, hi]
      exact hj
    · exact hj
  refine ⟨fun c j => ?_, fun c => ?_, fun r c hc => h.conns r c (by rw [hv'] at hc; exact hc),
    fun j c hj => ?_, fun j lock hj => ?_, fun j c hj => ?_, fun j c hj => ?_,
    fun j k r c hj hk hpj hpk => ?_, fun j c callId' hj hc => ?_,
    fun j k c callId' hj hcj hk hck => ?_, fun p q c hc hq => ?_, fun c => ?_, fun p q hc hq => ?_⟩
  · rw [hqueue, hphase]
    split_ifs with hc hj hj
    · exact iff_of_false (hj ▸ hirest) (by rintro ⟨⟩)
    · rw [hrest, hc]
      exact and_iff_left hj
    · refine iff_of_false (fun hm => hc ?_) (by rintro ⟨⟩)
      rw [h.queued, hj, hi] at hm
      exact (Phase.queued.inj hm).symm
    · exact h.queued c j
  · rw [hqueue]
    split_ifs
    · have hn := h.nodup conn
      rw [hq] at hn
      exact hn.of_cons
    · exact h.nodup c
  · rw [hof]
    refine h.dest j c (hj.imp (fun hj => ?_) (hconn j c))
    rw [hphase] at hj
    split_ifs at hj
    exact hj
  · rw [hof]
    rw [hphase] at hj
    split_ifs at hj
    · cases hj
    · exact h.held j lock hj
  · rw [hIsCall]
    by_cases hji : j = i ∧ c = conn
    · rw [hji.1, hji.2]
      exact ⟨callId, hcall⟩
    · refine h.calls j c ?_
      rw [hphase, hreg', hhandles] at hj
      rcases hj with hj | hj | hj
      · split_ifs at hj with hj'
        · exact absurd ⟨hj', (Phase.running.inj hj).symm⟩ hji
        · exact .inl hj
      · split_ifs at hj with hc
        · exact absurd ⟨(Option.some.inj hj).symm, hc⟩ hji
        · exact .inr (.inl hj)
      · exact .inr (.inr hj)
  · rw [hreg', hhandles] at hj
    rw [hphase]
    by_cases hji : j = i
    · subst hji
      have hc : c = conn := by
        by_contra hc
        rw [if_neg hc] at hj
        rcases h.taken j c hj with hp | hp <;> rw [hi] at hp <;> cases hp
      rw [if_pos rfl, hc]
      exact .inl rfl
    · rw [if_neg hji]
      refine h.taken j c (hj.imp_left fun hj => ?_)
      split_ifs at hj
      · exact absurd (Option.some.inj hj).symm hji
      · exact hj
  · rw [hIsCall] at hj hk
    exact h.once j k r c hj hk (hover j hpj) (hover k hpk)
  · rw [hIsCall] at hc
    rw [hreg', hhandles]
    rw [hphase] at hj
    split_ifs at hj with hji
    · rw [if_pos (Phase.running.inj hj).symm, hji]
      exact .inl rfl
    · have hf := h.found j c callId' hj hc
      split_ifs with hcc
      · rw [hcc, hreg] at hf
        rw [hcc]
        exact .inr (hf.resolve_left (Option.some_ne_none j).symm)
      · exact hf
  · rw [hIsCall] at hcj hck
    have hk' : v'.phase k ≠ .ended := by rw [hk]; exact Phase.noConfusion
    rw [hreg'] at hj
    split_ifs at hj with hcc
    · cases hj
      exact h.once k i c.runtime callId' hck hcj (hover k hk') hiover
    · have hki : k ≠ i := by
        rintro rfl
        rw [hphase, if_pos rfl] at hk
        exact hcc (Phase.running.inj hk).symm
      rw [hphase, if_neg hki] at hk
      exact h.alone j k c callId' hj hcj hk hck
  · rw [hCancels] at hc
    have hq' : v.phase q = .queued c := by
      rw [hphase] at hq
      split_ifs at hq
      exact hq
    have hb := h.behind p q c hc hq'
    rw [hphase]
    split_ifs with hpi
    · rw [hpi, hi] at hb
      exact hb.imp_left (by rintro ⟨⟩)
    · exact hb
  · rw [hCancels, hqueue]
    have ho := h.order conn
    rw [hq] at ho
    split_ifs
    · exact ho.of_cons
    · exact h.order c
  · rw [hCancels] at hc
    have hqi : q ≠ i := by
      rintro rfl
      exact hc.not_isCall _ _ hcall
    rw [hphase, if_neg hqi] at hq
    have hp := h.stops p q hc hq
    rw [hphase, if_neg]
    · exact hp
    · rintro rfl
      exact hiover hp

theorem Ordered.takeCancel (h : v.Ordered) (hq : v.queue conn = i :: rest)
    (hreg : v.registering conn = none)
    (hcancel : v.commands[i]? = some (.cancel conn.runtime callId)) (hv' : v' =
      { v with
        queue := Function.update v.queue conn rest
        phase := fun j => if j = i ∨ v.handles conn callId = some j then .ended else v.phase j
        handles := Function.update v.handles conn
          (Function.update (v.handles conn) callId none) }) : v'.Ordered := by
  obtain ⟨hi, hirest, hrest⟩ := queue_head h hq
  have hphase : ∀ j, v'.phase j =
      if j = i ∨ v.handles conn callId = some j then .ended else v.phase j := fun j => by rw [hv']
  have hqueue : ∀ c, v'.queue c = if c = conn then rest else v.queue c := fun c => by
    rw [hv']
    exact Function.update_apply _ _ _ _
  have hhandles : ∀ c callId', v'.handles c callId' =
      if c = conn ∧ callId' = callId then none else v.handles c callId' := by
    intro c callId'
    rw [hv']
    simp only [Function.update_apply]
    split_ifs <;> simp_all
  have hhandle : ∀ j, v.handles conn callId = some j →
      v.phase j = .running conn ∨ v.phase j = .ended := fun j hj =>
    h.taken j conn (.inr ⟨callId, hj⟩)
  refine h.ends ⟨by rw [hv'], by rw [hv'], fun j => ?_, fun c => ?_, fun c j hj => ?_,
    fun c j hj => by rwa [hv'] at hj, fun c callId' j hj => ?_, fun j c callId' hj hcall => ?_,
    fun p q hc hqover => ?_⟩
  · rw [hphase]
    split_ifs
    · exact .inr rfl
    · exact .inl rfl
  · rw [hqueue]
    split_ifs with hc
    · rw [hc, hq]
      exact List.sublist_cons_self i rest
    · exact List.Sublist.refl _
  · have hnot : v.handles conn callId ≠ some j := fun hx => by
      rcases hhandle j hx with hp | hp <;> rw [hj] at hp <;> cases hp
    rw [hqueue, hphase, hj]
    by_cases hji : j = i
    · obtain rfl : conn = c := Phase.queued.inj (hi.symm.trans (hji ▸ hj))
      rw [if_pos rfl, if_pos (.inl hji), hji]
      exact iff_of_false hirest (by rintro ⟨⟩)
    · rw [if_neg (not_or.mpr ⟨hji, hnot⟩)]
      refine iff_of_true ?_ rfl
      split_ifs with hc
      · exact (hrest j).mpr ⟨hc ▸ hj, hji⟩
      · exact (h.queued c j).mpr hj
  · rw [hhandles] at hj
    split_ifs at hj
    exact hj
  · rw [hphase] at hj
    split_ifs at hj with hne
    obtain ⟨hji, hnot⟩ := not_or.mp hne
    have hf := h.found j c callId' hj hcall
    rw [hhandles]
    split_ifs with hx
    · rw [hx.1, hx.2] at hf
      rcases hf with hf | hf
      · rw [hreg] at hf
        cases hf
      · exact absurd hf hnot
    · refine hf.imp_left fun hf => ?_
      rw [hv']
      exact hf
  · have hkept : v.phase p = .ended → v'.phase p = .ended := fun hp => by
      rw [hphase, hp, ite_self]
    by_cases hqi : q = i
    · subst hqi
      obtain ⟨-, r, c, hp, hq'⟩ := id hc
      obtain ⟨rfl, rfl⟩ :=
        RuntimeVendorCommand.cancel.inj (Option.some.inj (hcancel.symm.trans hq'))
      rcases h.behind p q conn hc hi with hover | hconn
      · exact hkept hover
      cases hpp : v.phase p with
      | queued c =>
        -- no call that a cancel names is behind it
        rw [hpp] at hconn
        obtain rfl := Option.some.inj hconn
        have ho := h.order c
        rw [hq, List.pairwise_cons] at ho
        exact absurd hc (ho.1 p ((hrest p).mpr ⟨hpp, Nat.ne_of_lt hc.1⟩))
      | running c =>
        rw [hpp] at hconn
        obtain rfl := Option.some.inj hconn
        have hf := h.found p c callId hpp hp
        rw [hreg] at hf
        rw [hphase, if_pos (.inr (hf.resolve_left (Option.some_ne_none p).symm))]
      | spawned | waiting _ | executing _ _ | retired _ | forwarding _ | ended =>
        rw [hpp] at hconn
        cases hconn
    · rw [hphase] at hqover
      split_ifs at hqover with hx
      · obtain ⟨c, hcall⟩ := h.calls q conn (.inr (.inr ⟨callId, hx.resolve_left hqi⟩))
        exact absurd hcall (hc.not_isCall _ _)
      · exact hkept (h.stops p q hc hqover)

theorem Ordered.finish (h : v.Ordered)
    (hi : v.phase i = .running conn) (hid : v.callIdOf i = some callId) (hv' : v' =
      { v.setPhase i .ended with
        handles := Function.update v.handles conn
          (Function.update (v.handles conn) callId none) }) : v'.Ordered := by
  have hphase : ∀ j, v'.phase j = if j = i then .ended else v.phase j := fun j => by
    rw [hv']
    exact Function.update_apply _ _ _ _
  have hhandles : ∀ c callId', v'.handles c callId' =
      if c = conn ∧ callId' = callId then none else v.handles c callId' := by
    intro c callId'
    rw [hv']
    simp only [Function.update_apply]
    split_ifs <;> simp_all
  obtain ⟨c, hcall⟩ := h.calls i conn (.inl hi)
  obtain rfl : c = callId := by
    unfold callIdOf at hid
    rw [relayOf_of_isCall hcall] at hid
    exact Option.some.inj hid
  refine h.ends ⟨by rw [hv']; rfl, by rw [hv']; rfl, fun j => ?_, fun c => ?_, fun c' j hj => ?_,
    fun c' j hj => by rwa [hv'] at hj, fun c' callId' j hj => ?_, fun j c' callId' hj hcj => ?_,
    fun p q hc hqover => ?_⟩
  · rw [hphase]
    split_ifs
    · exact .inr rfl
    · exact .inl rfl
  · rw [hv']
    exact List.Sublist.refl _
  · have hji : j ≠ i := by
      rintro rfl
      cases hi.symm.trans hj
    rw [hphase, if_neg hji, hj, hv']
    exact iff_of_true ((h.queued c' j).mpr hj) rfl
  · rw [hhandles] at hj
    split_ifs at hj
    exact hj
  · rw [hphase] at hj
    split_ifs at hj with hji
    have hf := h.found j c' callId' hj hcj
    rw [hhandles]
    split_ifs with hx
    · -- no other call runs there under this id
      refine absurd (h.once j i c'.runtime callId' hcj ?_ ?_ ?_) hji
      · rw [hx.1, hx.2]
        exact hcall
      · rw [hj]
        exact Phase.noConfusion
      · rw [hi]
        exact Phase.noConfusion
    · rwa [hv']
  · have hp : v.phase p = .ended := by
      rw [hphase] at hqover
      split_ifs at hqover with hqi
      · exact absurd (hqi ▸ hcall) (hc.not_isCall _ _)
      · exact h.stops p q hc hqover
    rw [hphase, hp, ite_self]

theorem Ordered.register (h : v.Ordered)
    (hi : v.registering conn = some i) (hid : v.callIdOf i = some callId) :
    Ordered
      { v with
        registering := Function.update v.registering conn none
        handles := Function.update v.handles conn
          (Function.update (v.handles conn) callId (some i)) } := by
  obtain ⟨c, hcall⟩ := h.calls i conn (.inr (.inl hi))
  obtain rfl : c = callId := by
    unfold callIdOf at hid
    rw [relayOf_of_isCall hcall] at hid
    exact Option.some.inj hid
  have hthere : ∀ j c', Function.update v.registering conn none c' = some j ∨
      (∃ callId', Function.update v.handles conn
        (Function.update (v.handles conn) c (some i)) c' callId' = some j) →
      v.registering c' = some j ∨ ∃ callId', v.handles c' callId' = some j := by
    rintro j c' (hj | ⟨callId', hj⟩)
    · rw [Function.update_apply] at hj
      split_ifs at hj
      exact .inl hj
    · simp only [Function.update_apply] at hj
      split_ifs at hj with hc'
      · rw [hc']
        rw [Function.update_apply] at hj
        split_ifs at hj
        · exact .inl (hi.trans hj)
        · exact .inr ⟨callId', hj⟩
      · exact .inr ⟨callId', hj⟩
  refine ⟨h.queued, h.nodup, h.conns, h.dest, h.held, fun j c' hj => ?_, fun j c' hj => ?_, h.once,
    fun j c' callId' hj hcj => ?_, fun j k c' callId' hj hcj hk hck => ?_, h.behind, h.order,
    h.stops⟩
  · exact h.calls j c' (hj.imp_right (hthere j c'))
  · exact h.taken j c' (hthere j c' hj)
  · have hf := h.found j c' callId' hj hcj
    by_cases hc' : c' = conn
    · subst hc'
      right
      show Function.update v.handles c' (Function.update (v.handles c') c (some i)) c' callId' =
        some j
      rw [Function.update_self, Function.update_apply]
      rcases hf with hf | hf
      · cases hi.symm.trans hf
        cases hcall.symm.trans hcj
        rw [if_pos rfl]
      · split_ifs with hx
        · subst hx
          rw [h.alone i j c' callId' hi hcall hj hcj]
        · exact hf
    · show Function.update v.registering conn none c' = some j ∨
        Function.update v.handles conn (Function.update (v.handles conn) c (some i)) c' callId' =
          some j
      rwa [Function.update_of_ne hc', Function.update_of_ne hc']
  · refine h.alone j k c' callId' ?_ hcj hk hck
    have hj' : Function.update v.registering conn none c' = some j := hj
    rw [Function.update_apply] at hj'
    split_ifs at hj'
    exact hj'

theorem Ordered.send (h : v.Ordered) (hsound : v.Sound) {c : RuntimeVendorCommand}
    (hc : ∀ runtime callId, c = .call runtime callId → v.unusedId runtime callId = true) :
    Ordered { v with commands := v.commands ++ [c] } := by
  have hread : ∀ i, v.phase i ≠ .spawned → i < v.commands.length := fun i hi =>
    Nat.lt_of_lt_of_le (hsound.lt_read hi) hsound.length
  have hold : ∀ i, i < v.commands.length → (v.commands ++ [c])[i]? = v.commands[i]? :=
    fun i hi => List.getElem?_append_left hi
  have hof : ∀ i, v.phase i ≠ .spawned →
      relayOf { v with commands := v.commands ++ [c] } i = v.relayOf i := by
    intro i hi
    unfold relayOf
    rw [hold i (hread i hi)]
  have hcall : ∀ i r callId, v.phase i ≠ .spawned →
      (IsCall { v with commands := v.commands ++ [c] } i r callId ↔ v.IsCall i r callId) := by
    intro i r callId hi
    unfold IsCall
    rw [hold i (hread i hi)]
  have hcancels : ∀ p q, v.phase q ≠ .spawned →
      (Cancels { v with commands := v.commands ++ [c] } q p ↔ v.Cancels q p) := by
    intro p q hq
    have hlt := hread q hq
    refine and_congr_right fun hpq => ?_
    rw [hold q hlt, hold p (Nat.lt_trans hpq hlt)]
  have hconn : ∀ i conn, (v.phase i).conn = some conn → v.phase i ≠ .spawned := by
    intro i conn hi he
    rw [he] at hi
    cases hi
  have htaken : ∀ i conn, v.registering conn = some i ∨ (∃ callId, v.handles conn callId = some i) →
      v.phase i ≠ .spawned := by
    intro i conn hi
    rcases h.taken i conn hi with hp | hp <;> rw [hp] <;> exact Phase.noConfusion
  have hrun : ∀ i conn, v.phase i = .running conn → v.phase i ≠ .spawned := fun i conn hi =>
    hconn i conn (by rw [hi]; rfl)
  -- a call is the new command, or one of the others
  have hone : ∀ i r callId, (v.commands ++ [c])[i]? = some (.call r callId) →
      i = v.commands.length ∧ c = .call r callId ∨
        i < v.commands.length ∧ v.IsCall i r callId := by
    intro i r callId hi
    rcases getElem?_snoc_cases hi with hi | ⟨hlen, hc⟩
    · exact .inr ⟨(List.getElem?_eq_some_iff.mp hi).1, hi⟩
    · exact .inl ⟨hlen, hc.symm⟩
  have hnew : ∀ j r callId, c = .call r callId → j < v.commands.length → v.IsCall j r callId →
      v.phase j = .ended := by
    intro j r callId hcr hj hcj
    have hu := List.all_eq_true.mp (hc r callId hcr) j (List.mem_range.mpr hj)
    simp only [Bool.or_eq_true, decide_eq_true_eq] at hu
    exact hu.resolve_left fun hne => hne hcj
  refine ⟨h.queued, h.nodup, h.conns, fun i conn hi => ?_, fun i lock hi => ?_,
    fun i conn hi => ?_, h.taken, fun i j r callId hi hj hpi hpj => ?_,
    fun i conn callId hi hci => ?_, fun i j conn callId hi hci hj hcj => ?_,
    fun p q conn hcan hq => ?_, fun conn => ?_, fun p q hcan hq => ?_⟩
  · have hp : v.phase i ≠ .spawned := by
      rcases hi with hi | hi
      · rw [hi]
        exact Phase.noConfusion
      · exact hconn i conn hi
    rw [hof i hp]
    exact h.dest i conn hi
  · have hp : v.phase i ≠ .spawned := by
      intro he
      rw [he] at hi
      cases hi
    rw [hof i hp]
    exact h.held i lock hi
  · have hp : v.phase i ≠ .spawned := hi.elim (hrun i conn) (htaken i conn)
    simp only [hcall i _ _ hp]
    exact h.calls i conn hi
  · rcases hone i r callId hi with ⟨hil, hci⟩ | ⟨hil, hci⟩ <;>
      rcases hone j r callId hj with ⟨hjl, hcj⟩ | ⟨hjl, hcj⟩
    · rw [hil, hjl]
    · exact absurd (hnew j r callId hci hjl hcj) hpj
    · exact absurd (hnew i r callId hcj hil hci) hpi
    · exact h.once i j r callId hci hcj hpi hpj
  · exact h.found i conn callId hi ((hcall i _ _ (hrun i conn hi)).mp hci)
  · exact h.alone i j conn callId hi ((hcall i _ _ (htaken i conn (.inl hi))).mp hci) hj
      ((hcall j _ _ (hrun j conn hj)).mp hcj)
  · have hp : v.phase q ≠ .spawned := hconn q conn (by rw [show v.phase q = _ from hq]; rfl)
    exact h.behind p q conn ((hcancels p q hp).mp hcan) hq
  · refine (h.order conn).imp_of_mem fun {i j} hi _ hij hcan => hij ?_
    have hp : v.phase i ≠ .spawned := hconn i conn (by rw [(h.queued conn i).mp hi]; rfl)
    exact (hcancels j i hp).mp hcan
  · have hp : v.phase q ≠ .spawned := by
      rw [show v.phase q = _ from hq]
      exact Phase.noConfusion
    exact h.stops p q ((hcancels p q hp).mp hcan) hq

theorem of_settled {dest : Option Conn} (h : v.settled i dest = true) {p : ℕ}
    (hc : v.Cancels i p) :
    v.phase p = .ended ∨ ∃ conn, dest = some conn ∧ (v.phase p).conn = some conn := by
  obtain ⟨hlt, r, callId, hp, hi⟩ := hc
  unfold settled at h
  rw [hi] at h
  have hx := List.all_eq_true.mp h p (List.mem_range.mpr hlt)
  simp only [Bool.or_eq_true, decide_eq_true_eq, Option.any_eq_true] at hx
  rcases hx with (hx | hx) | hx
  · exact absurd hp hx
  · exact .inl hx
  · exact .inr hx

theorem Ordered.step (h : v.Ordered) (hsound : v.Sound) {l : Label} (hg : v.keepsOrder l = true)
    (hs : v.step? l = some v') : v'.Ordered := by
  have hlifecycle : ∀ i c runtime, v.commands[i]? = some c → c.lifecycle = some runtime →
      v.relayOf i = none := by
    intro i c runtime hi hc
    unfold relayOf
    rw [hi]
    cases c <;> first | rfl | cases hc
  unfold step? at hs
  cases l with
  | send c =>
    cases hs
    exact h.send hsound fun runtime callId hc => by rw [hc] at hg; exact hg
  | read =>
    split_ifs at hs
    cases hs
    exact h.aside ⟨rfl, h.conns, rfl, rfl, rfl, fun _ => .inl rfl⟩
  | lookup i =>
    dsimp only at hs
    split at hs
    · rename_i c hc hp
      obtain ⟨-, hs⟩ := Option.ite_none_right_eq_some.mp hs
      obtain ⟨runtime, hr, rfl⟩ := Option.map_eq_some_iff.mp hs
      have hi := hlifecycle i c runtime hc hr
      split_ifs
      · exact h.setPhase hi rfl fun _ => Phase.noConfusion
      · unfold lifecycleLock
        split
        · exact h.setPhase hi rfl fun _ => Phase.noConfusion
        · have ha : Ordered
              { v with
                locks := Function.update v.locks runtime (some v.nextLock)
                nextLock := v.nextLock + 1 } :=
            h.aside ⟨rfl, h.conns, rfl, rfl, rfl, fun _ => .inl rfl⟩
          exact ha.setPhase hi rfl fun _ => Phase.noConfusion
    · cases hs
  | acquire i =>
    dsimp only at hs
    split at hs
    · rename_i c lock hc hp
      obtain ⟨-, hs⟩ := Option.ite_none_right_eq_some.mp hs
      obtain ⟨runtime, hr, rfl⟩ := Option.map_eq_some_iff.mp hs
      exact h.setPhase (hlifecycle i c runtime hc hr) rfl fun _ => Phase.noConfusion
    · cases hs
  | act i ok =>
    dsimp only at hs
    split at hs
    · rename_i c lock rest hc hp
      obtain ⟨runtime, hr, rfl⟩ := Option.map_eq_some_iff.mp hs
      have hi : (v.halt runtime).relayOf i = none := by
        have hcommands : (v.halt runtime).commands = v.commands := by
          unfold Vendor.halt
          split <;> rfl
        have hi' := hlifecycle i c runtime hc hr
        unfold relayOf at hi' ⊢
        rwa [hcommands]
      exact (h.halt runtime).setPhase hi rfl fun _ => Phase.noConfusion
    · rename_i c lock rest hc hp
      obtain ⟨runtime, hr, rfl⟩ := Option.map_eq_some_iff.mp hs
      have hi := hlifecycle i c runtime hc hr
      split_ifs
      · have ha : (v.attach runtime).Ordered := by
          refine h.aside ⟨rfl, fun r conn hrc => ?_, rfl, rfl, rfl, fun _ => .inl rfl⟩
          simp only [attach, Function.update_apply] at hrc
          split_ifs at hrc with hrr
          · rw [← Option.some.inj hrc, hrr]
          · exact h.conns r conn hrc
        exact ha.setPhase hi rfl fun _ => Phase.noConfusion
      · exact h.setPhase hi rfl fun _ => Phase.noConfusion
    · cases hs
  | retire i =>
    dsimp only at hs
    split at hs
    · rename_i runtime lock hc hp
      cases hs
      have hi := hlifecycle i _ runtime hc rfl
      have hx : (v.setPhase i (.retired lock)).Ordered :=
        h.setPhase hi rfl fun _ => Phase.noConfusion
      exact hx.aside ⟨rfl, hx.conns, rfl, rfl, rfl, fun _ => .inl rfl⟩
    · cases hs
  | release i =>
    dsimp only at hs
    split at hs
    · cases hs
    · rename_i lock _ _ hp
      cases hs
      exact h.setPhase (h.held i lock (by rw [hp]; rfl)) rfl fun _ => Phase.noConfusion
    · rename_i lock _ hp
      cases hs
      exact h.setPhase (h.held i lock (by rw [hp]; rfl)) rfl fun _ => Phase.noConfusion
    · cases hs
  | resolve i =>
    dsimp only at hs
    split at hs
    · rename_i runtime callId hi hp
      split_ifs at hs
      cases hs
      cases hr : v.runtimes runtime with
      | none =>
        refine h.move (.inl hp) (.inl rfl) fun _ p hc => ?_
        simp only [keepsOrder, hi, Option.all_some, hr, Option.isSome_none, Bool.false_or] at hg
        exact (of_settled hg hc).resolve_right (by rintro ⟨_, ⟨⟩, _⟩)
      | some conn =>
        refine h.move (.inl hp) (.inr ⟨conn, callId, rfl, ?_⟩) fun hx => by cases hx
        rw [h.conns runtime conn hr]
        exact hi
    · cases hs
  | forward i =>
    dsimp only at hs
    split at hs
    · rename_i conn hp
      simp only [keepsOrder, hp] at hg
      split_ifs at hs hg with hdead
      · cases hs
        refine h.move (.inr ⟨conn, hp⟩) (.inl rfl) fun _ p hc => ?_
        exact (of_settled hg hc).resolve_right (by rintro ⟨_, ⟨⟩, _⟩)
      · cases hs
        refine h.write hp fun p hc => (of_settled hg hc).imp_right ?_
        rintro ⟨conn', hconn, hp'⟩
        exact Option.some.inj hconn ▸ hp'
    · cases hs
  | take conn =>
    dsimp only at hs
    split at hs
    · rename_i i rest hq hreg
      obtain ⟨c, hc, rfl⟩ := Option.map_eq_some_iff.mp hs
      obtain ⟨callId, hi⟩ := h.dest i conn (.inr (by rw [(queue_head h hq).1]; rfl))
      unfold relayOf at hi
      rw [hc] at hi
      cases c with
      | call r callId' =>
        cases hi
        exact h.takeCall hq hreg hc rfl
      | cancel r callId' =>
        cases hi
        exact h.takeCancel hq hreg hc rfl
      | create _ | get _ | hibernate _ | delete _ => cases hi
    · cases hs
  | register conn =>
    dsimp only at hs
    split at hs
    · rename_i i hreg
      obtain ⟨callId, hid, rfl⟩ := Option.map_eq_some_iff.mp hs
      exact h.register hreg hid
    · cases hs
  | finish i =>
    dsimp only at hs
    split at hs
    · rename_i conn hp
      obtain ⟨callId, hid, rfl⟩ := Option.map_eq_some_iff.mp hs
      exact h.finish hp hid rfl
    · cases hs
  | die conn =>
    cases hs
    exact h.clear conn

end Vendor

/-- A cancel is written before its call: the runtime finds nothing to cancel, and runs the call. -/
theorem cancel_overtakes :
    ¬ ∀ respawnable v, (vendorLink respawnable).Reachable v → v.InOrder := by
  intro h
  have hrun : ((System.steps? Vendor.step? (.init true)
      [.send (.create "r"), .read, .lookup 0, .acquire 0, .act 0 true, .act 0 true, .release 0,
        .send (.call "r" "call_0"), .send (.cancel "r" "call_0"), .read, .read, .resolve 1,
        .resolve 2, .forward 2, .take ⟨"r", 0⟩, .forward 1, .take ⟨"r", 0⟩,
        .register ⟨"r", 0⟩]).map fun v => (v.commands, v.phase 1, v.phase 2)) =
      some ([.create "r", .call "r" "call_0", .cancel "r" "call_0"], .running ⟨"r", 0⟩,
        .ended) := by
    decide +kernel
  obtain ⟨v, hv, hx⟩ := Option.map_eq_some_iff.mp hrun
  obtain ⟨tr, htr, -⟩ := System.exec_steps? (Vendor.init true) hv
  simp only [Prod.mk.injEq] at hx
  obtain ⟨hcommands, hcall, hcancel⟩ := hx
  have hover := (h true v (htr.reachable (.init rfl))).stops 1 2
    ⟨Nat.lt_succ_self 1, "r", "call_0", by rw [hcommands]; rfl, by rw [hcommands]; rfl⟩ hcancel
  rw [hover] at hcall
  cases hcall

/-- In a run in which no id is used while another call has it, and a cancel is written only behind
its call, a cancel reaches the runtime behind its call and leaves no call running. -/
theorem cancels_in_order {respawnable : Bool} {tr : List (Vendor × Vendor.Label × Vendor)}
    {v : Vendor} (h : (vendorLink respawnable).Exec (.init respawnable) tr v)
    (hg : ∀ x ∈ tr, x.1.keepsOrder x.2.1 = true) : v.InOrder := by
  have hinv : v.Ordered := h.guarded (G := fun v l => v.keepsOrder l = true) (I := Vendor.Ordered)
    (fun _ _ _ hr hv hl hs => hv.step (sound_of_reachable hr) hl hs) (.init rfl)
    (.init respawnable) hg
  exact hinv.inOrder

/-- A cancel finds its call, which is executed. -/
theorem cancels_in_order_found : ∃ tr v,
    (vendorLink true).Exec (.init true) tr v ∧
      v.phase 1 = .ended ∧ v.phase 2 = .ended ∧ v.InOrder := by
  have hrun : ((System.steps?
      (System.guarded? (fun v l => Vendor.keepsOrder v l = true) Vendor.step?) (.init true)
      [.send (.create "r"), .read, .lookup 0, .acquire 0, .act 0 true, .act 0 true, .release 0,
        .send (.call "r" "call_0"), .send (.cancel "r" "call_0"), .read, .read, .resolve 1,
        .resolve 2, .forward 1, .forward 2, .take ⟨"r", 0⟩, .register ⟨"r", 0⟩,
        .take ⟨"r", 0⟩]).map fun v => (v.phase 1, v.phase 2)) = some (.ended, .ended) := by
    decide +kernel
  obtain ⟨v, hv, hx⟩ := Option.map_eq_some_iff.mp hrun
  obtain ⟨tr, htr, -, hall⟩ := System.exec_guarded? (Vendor.init true) hv
  obtain ⟨hcall, hcancel⟩ := Prod.mk.inj hx
  exact ⟨tr, v, htr, hcall, hcancel, cancels_in_order htr hall⟩

end Horsie.RuntimeHost

import Horsie.Lib.Take
import Horsie.RuntimeHost.Transport

/-!
# Reply correlation

Every hop knows a request by its call id alone. While no two requests share one, everything keyed by
an id is about one relay (`Inv.one`), and each relay gets its own reply. The ids are the models'
tool-call ids, unique within one message of one agent only.
-/

namespace Horsie.RuntimeHost

open Horsie.Lib

namespace World

/-! ## The property -/

def Stage.result : Stage → Option Resolution
  | .resolved r | .finished r => some r
  | _ => none

/-- A relay's request or reply is on its way. -/
def UnderWay (w : World) (i : ℕ) : Prop :=
  (∃ callId, .request i callId ∈ w.inbound) ∨ (∃ callId, ⟨i, callId, false⟩ ∈ w.tasks) ∨
    ∃ callId, .answer i callId ∈ w.outbound

/-- Each relay resolves with the reply to its own request or with an error, and none that its own
caller, agent, frames and connection stand by loses its reply. -/
structure Correlated (w : World) : Prop where
  own : ∀ (i : ℕ) (relay : Relay) (k : ℕ), w.relays[i]? = some relay →
    Stage.result relay.stage = some (.reply k) → k = i
  kept : ∀ (i : ℕ) (relay : Relay), w.relays[i]? = some relay → i ∉ w.excused →
    (∀ r, Stage.result relay.stage = some r → r = .reply i) ∧
      (relay.stage = .awaiting → relay.reply = some (.reply i) ∨
        w.pending relay.callId = some i ∧ w.UnderWay i)

/-! ## Ids in use -/

/-- Something is keyed by an id: a waiter, a handle, a task, a message, a cancel or a watch, or a
relay whose call is not over. -/
def inUse (w : World) (callId : String) : Bool :=
  (w.pending callId).isSome || (w.handles callId).isSome ||
    w.spawned.any (fun task => decide (task.1 = callId)) ||
    w.tasks.any (fun task => decide (task.callId = callId)) ||
    w.inbound.any (fun message => decide (message.callId = callId)) ||
    w.outbound.any (fun message => decide (message.callId = callId)) ||
    w.cancelling.contains callId || w.watched.any (fun entry => decide (entry.1 = callId)) ||
    w.relays.any fun relay => decide (relay.callId = callId) && relay.open

/-- A request is made under an id that nothing is keyed by. -/
def freshId (w : World) : Label → Bool
  | .request _ callId => !w.inUse callId
  | _ => true

/-! ## The invariant -/

/-- A waiter, a message, a task or a handle under an id is about a relay. -/
def Keyed (w : World) (callId : String) (i : ℕ) : Prop :=
  w.pending callId = some i ∨ .request i callId ∈ w.inbound ∨ w.spawned = some (callId, i) ∨
    (∃ replied, ⟨i, callId, replied⟩ ∈ w.tasks) ∨ w.handles callId = some i ∨
    .answer i callId ∈ w.outbound

/-- Something under an id is about a relay, or the relay's call is not over. -/
def Refers (w : World) (callId : String) (i : ℕ) : Prop :=
  w.Keyed callId i ∨ ∃ relay, w.relays[i]? = some relay ∧ relay.callId = callId ∧ relay.open = true

/-- A cancel of an id has been decided, or is on its way, or its answer is. -/
def Cancels (w : World) (callId : String) : Prop :=
  callId ∈ w.cancelling ∨ .cancel callId ∈ w.inbound ∨ .cancelled callId ∈ w.outbound

/-- A resolution a relay may get: its own reply, or an error that is not another's doing. -/
def Fair (w : World) (i : ℕ) (r : Resolution) : Prop :=
  r = .reply i ∨ i ∈ w.excused ∧ ∀ k, r ≠ .reply k

/-- Where one relay stands: its waiter is the one under its id, what it got is fair, and what it
waits for is on its way. -/
structure Sound (w : World) (i : ℕ) (relay : Relay) : Prop where
  unregistered : relay.stage = .tracked → ∀ callId, w.pending callId ≠ some i
  waiter : relay.stage = .registered ∨ relay.stage = .awaiting → relay.reply = none →
    w.pending relay.callId = some i
  reply : relay.open = true → ∀ r, relay.reply = some r → w.Fair i r
  result : ∀ r, Stage.result relay.stage = some r → w.Fair i r
  coming : relay.stage = .awaiting → relay.reply = none → i ∉ w.excused → w.UnderWay i

structure Inv (w : World) : Prop where
  one : ∀ callId i j, w.Refers callId i → w.Refers callId j → i = j
  named : ∀ callId i, w.Refers callId i → ∃ relay, w.relays[i]? = some relay ∧ relay.callId = callId
  tracked : ∀ (i : ℕ) (relay : Relay), w.relays[i]? = some relay → relay.open = true →
    w.inFlight relay.callId = some relay.agent
  cancels : ∀ (i : ℕ) (relay : Relay), w.relays[i]? = some relay → relay.open = true →
    w.Cancels relay.callId → i ∈ w.excused
  watched : ∀ entry ∈ w.watched, ∀ (i : ℕ) (relay : Relay), w.relays[i]? = some relay →
    relay.open = true → relay.callId = entry.1 → i ∈ entry.2
  sound : ∀ (i : ℕ) (relay : Relay), w.relays[i]? = some relay → w.Sound i relay

variable {w w' : World}

variable {relay : Relay}

theorem open_of_stage (h : ∀ r, relay.stage ≠ .finished r) : relay.open = true := by
  unfold Relay.open
  split
  · exact absurd rfl (h _)
  · rfl

theorem stage_of_open (h : relay.open = true) (r : Resolution) :
    relay.stage ≠ .finished r := by
  rintro hstage
  obtain ⟨agent, callId, stage, reply⟩ := relay
  obtain rfl : stage = .finished r := hstage
  cases h

theorem open_iff : relay.open = true ↔ ∀ r, relay.stage ≠ .finished r :=
  ⟨stage_of_open, open_of_stage⟩

theorem Inv.correlated (h : w.Inv) : w.Correlated where
  own i relay k hi hresult := by
    rcases (h.sound i relay hi).result _ hresult with hown | ⟨-, hnot⟩
    · exact Resolution.reply.inj hown
    · exact absurd rfl (hnot k)
  kept i relay hi hstand := by
    have hsound := h.sound i relay hi
    refine ⟨fun r hr => ?_, fun hstage => ?_⟩
    · rcases hsound.result r hr with hown | ⟨hex, -⟩
      · exact hown
      · exact absurd hex hstand
    · cases hreply : relay.reply with
      | none => exact .inr ⟨hsound.waiter (.inr hstage) hreply, hsound.coming hstage hreply hstand⟩
      | some r =>
        have hopen : relay.open = true := open_of_stage fun r hr => by
          rw [hstage] at hr
          cases hr
        rcases hsound.reply hopen r hreply with hown | ⟨hex, -⟩
        · exact .inl (congrArg some hown)
        · exact absurd hex hstand

/-! ## Steps of the messages -/

/-- What a step does that is no relay's own: messages, tasks, handles and cancels move on. -/
structure Moves (w w' : World) : Prop where
  relays : w'.relays = w.relays
  inFlight : w'.inFlight = w.inFlight
  pending : w'.pending = w.pending
  excused : w.excused ⊆ w'.excused
  keyed : ∀ callId i, w'.Keyed callId i → w.Keyed callId i
  cancels : ∀ callId, w'.Cancels callId → w.Cancels callId ∨
    ∀ (i : ℕ) (relay : Relay), w.relays[i]? = some relay → relay.open = true →
      relay.callId = callId → i ∈ w'.excused
  watched : ∀ entry ∈ w'.watched, entry ∈ w.watched ∨
    ∀ (i : ℕ) (relay : Relay), w.relays[i]? = some relay → relay.open = true →
      relay.callId = entry.1 → i ∈ entry.2
  underWay : ∀ (i : ℕ) (relay : Relay), w.relays[i]? = some relay → relay.open = true →
    w.UnderWay i → w'.UnderWay i ∨ i ∈ w'.excused

variable {i : ℕ} {r : Resolution}

theorem Fair.mono (h : w.Fair i r) (hsub : w.excused ⊆ w'.excused) :
    w'.Fair i r := h.imp id fun ⟨hex, hnot⟩ => ⟨hsub hex, hnot⟩

theorem Inv.move (h : w.Inv) (hm : Moves w w') : w'.Inv := by
  have hrefers : ∀ c i, w'.Refers c i → w.Refers c i := fun c i =>
    Or.imp (hm.keyed c i) (hm.relays ▸ id)
  refine ⟨fun c i j hi hj => h.one c i j (hrefers c i hi) (hrefers c j hj), ?_, ?_, ?_, ?_, ?_⟩
  · intro c i hi
    rw [hm.relays]
    exact h.named c i (hrefers c i hi)
  · rw [hm.relays, hm.inFlight]
    exact h.tracked
  · rw [hm.relays]
    intro i relay hi hopen hc
    rcases hm.cancels _ hc with hold | hnew
    · exact hm.excused (h.cancels i relay hi hopen hold)
    · exact hnew i relay hi hopen rfl
  · rw [hm.relays]
    intro entry hentry
    rcases hm.watched entry hentry with hold | hnew
    · exact h.watched entry hold
    · exact hnew
  · rw [hm.relays]
    intro i relay hi
    have hsound := h.sound i relay hi
    refine ⟨?_, ?_, fun hopen r hr => (hsound.reply hopen r hr).mono hm.excused,
      fun r hr => (hsound.result r hr).mono hm.excused, fun hstage hreply hstand => ?_⟩
    · rw [hm.pending]
      exact hsound.unregistered
    · rw [hm.pending]
      exact hsound.waiter
    · have hopen : relay.open = true := open_of_stage fun r hr => by
        rw [hstage] at hr
        cases hr
      have hway := hsound.coming hstage hreply fun hex => hstand (hm.excused hex)
      rcases hm.underWay i relay hi hopen hway with hway' | hex
      · exact hway'
      · exact absurd hex hstand

variable {callId : String}

theorem mem_outstanding : i ∈ w.outstanding callId ↔
    ∃ relay, w.relays[i]? = some relay ∧ relay.callId = callId ∧ relay.open = true := by
  unfold outstanding
  rw [List.mem_filter, List.mem_range, Option.any_eq_true]
  refine ⟨?_, ?_⟩
  · rintro ⟨-, relay, hi, hp⟩
    rw [Bool.and_eq_true, decide_eq_true_eq] at hp
    exact ⟨relay, hi, hp⟩
  · rintro ⟨relay, hi, hp⟩
    exact ⟨(List.getElem?_eq_some_iff.mp hi).1, relay, hi,
      by rwa [Bool.and_eq_true, decide_eq_true_eq]⟩

theorem moves_cancelling {excused : List ℕ}
    (h : ∀ (i : ℕ) (relay : Relay), w.relays[i]? = some relay → relay.open = true →
      relay.callId = callId → i ∈ excused ++ w.excused) :
    Moves w
      { w with cancelling := callId :: w.cancelling, excused := excused ++ w.excused } := by
  refine ⟨rfl, rfl, rfl, List.subset_append_right _ _, fun _ _ hr => hr, fun c hc => ?_,
    fun entry he => .inl he, fun _ _ _ _ hway => .inl hway⟩
  rcases hc with hc | hc
  · rcases List.mem_cons.mp hc with rfl | hc
    · exact .inr h
    · exact .inl (.inl hc)
  · exact .inl (.inr hc)

theorem moves_sendCancel (hmem : callId ∈ w.cancelling) :
    Moves w
      { w with
        cancelling := w.cancelling.erase callId
        inbound := w.inbound ++ [.cancel callId] } := by
  refine ⟨rfl, rfl, rfl, List.Subset.refl _, ?_, ?_, fun entry he => .inl he, ?_⟩
  · simp only [Keyed]
    grind
  · simp only [Cancels]
    intro c hc
    grind [List.mem_of_mem_erase]
  · simp only [UnderWay]
    grind

variable {k : ℕ}

theorem moves_receive_request (refuse : Bool)
    (hk : w.inbound[k]? = some (.request i callId)) :
    Moves w ({ w with inbound := w.inbound.eraseIdx k }.receive refuse (.request i callId)) := by
  have hmem := List.mem_of_getElem? hk
  have hrest : ∀ message ∈ w.inbound, message = .request i callId ∨
      message ∈ w.inbound.eraseIdx k := fun _ hm => eq_or_mem_eraseIdx hk hm
  have hsub : ∀ message ∈ w.inbound.eraseIdx k, message ∈ w.inbound := fun _ hm =>
    List.mem_of_mem_eraseIdx hm
  cases refuse with
  | true =>
    refine ⟨rfl, rfl, rfl, List.Subset.refl _, ?_, ?_, fun entry he => .inl he, ?_⟩
    · simp only [Keyed, receive]
      grind
    · simp only [Cancels, receive]
      grind
    · simp only [UnderWay, receive]
      grind
  | false =>
    refine ⟨rfl, rfl, rfl, List.Subset.refl _, ?_, ?_, fun entry he => .inl he, ?_⟩
    · simp only [Keyed, receive]
      grind
    · simp only [Cancels, receive]
      grind
    · simp only [UnderWay, receive]
      grind

theorem moves_receive_cancel (h : w.Inv) (refuse : Bool)
    (hk : w.inbound[k]? = some (.cancel callId)) :
    Moves w ({ w with inbound := w.inbound.eraseIdx k }.receive refuse (.cancel callId)) := by
  have hmem := List.mem_of_getElem? hk
  have hsub : ∀ message ∈ w.inbound.eraseIdx k, message ∈ w.inbound := fun _ hm =>
    List.mem_of_mem_eraseIdx hm
  refine ⟨rfl, rfl, rfl, List.Subset.refl _, ?_, ?_, fun entry he => .inl he, ?_⟩
  · simp only [Keyed, receive, Function.update_apply, List.mem_filter]
    grind
  · simp only [Cancels, receive]
    grind
  · intro i relay hi hopen hway
    rcases hway with ⟨c, hway⟩ | ⟨c, hway⟩ | ⟨c, hway⟩
    · rcases eq_or_mem_eraseIdx hk hway with hc | hway
      · cases hc
      · exact .inl (.inl ⟨c, hway⟩)
    · by_cases hhandle : w.handles callId = some i
      · -- the task is aborted, by a cancel of the relay's own call
        obtain ⟨relay', hi', hid⟩ := h.named callId i
          (.inl (.inr (.inr (.inr (.inr (.inl hhandle))))))
        cases hi.symm.trans hi'
        exact .inr (h.cancels i relay hi hopen (.inr (.inl (hid ▸ hmem))))
      · exact .inl (.inr (.inl ⟨c, List.mem_filter.mpr ⟨hway, decide_eq_true hhandle⟩⟩))
    · exact .inl (.inr (.inr ⟨c, List.mem_append_left _ hway⟩))

theorem moves_insertHandle (hs : w.spawned = some (callId, i)) :
    Moves w
      { w with spawned := none, handles := Function.update w.handles callId (some i) } := by
  refine ⟨rfl, rfl, rfl, List.Subset.refl _, ?_, fun _ hc => .inl hc, fun entry he => .inl he,
    fun _ _ _ _ hway => .inl hway⟩
  simp only [Keyed, Function.update_apply]
  grind

theorem moves_reply (hk : w.tasks[k]? = some ⟨i, callId, false⟩) :
    Moves w
      { w with
        tasks := w.tasks.set k ⟨i, callId, true⟩
        outbound := w.outbound ++ [.answer i callId] } := by
  have hmem := List.mem_of_getElem? hk
  refine ⟨rfl, rfl, rfl, List.Subset.refl _, ?_, ?_, fun entry he => .inl he, ?_⟩
  · simp only [Keyed]
    grind
  · simp only [Cancels]
    grind
  · intro j relay _ _ hway
    refine .inl ?_
    rcases hway with hway | ⟨c, hway⟩ | ⟨c, hway⟩
    · exact .inl hway
    · obtain ⟨n, hn⟩ := List.mem_iff_getElem?.mp hway
      by_cases hnk : n = k
      · subst hnk
        cases hk.symm.trans hn
        exact .inr (.inr ⟨callId, List.mem_append_right _ (List.mem_singleton_self _)⟩)
      · refine .inr (.inl ⟨c, List.mem_iff_getElem?.mpr ⟨n, ?_⟩⟩)
        rwa [List.getElem?_set_ne fun he => hnk he.symm]
    · exact .inr (.inr ⟨c, List.mem_append_left _ hway⟩)

theorem moves_finish (hk : w.tasks[k]? = some ⟨i, callId, true⟩) :
    Moves w
      { w with
        tasks := w.tasks.eraseIdx k
        handles := Function.update w.handles callId none } := by
  have hsub : ∀ task ∈ w.tasks.eraseIdx k, task ∈ w.tasks := fun _ hm => List.mem_of_mem_eraseIdx hm
  refine ⟨rfl, rfl, rfl, List.Subset.refl _, ?_, fun _ hc => .inl hc, fun entry he => .inl he, ?_⟩
  · simp only [Keyed, Function.update_apply]
    grind
  · intro j relay _ _ hway
    refine .inl ?_
    rcases hway with hway | ⟨c, hway⟩ | hway
    · exact .inl hway
    · rcases eq_or_mem_eraseIdx hk hway with hc | hway
      · cases hc
      · exact .inr (.inl ⟨c, hway⟩)
    · exact .inr (.inr hway)

theorem moves_loseInbound {message : Inbound} (hk : w.inbound[k]? = some message) :
    Moves w
      { w with
        inbound := w.inbound.eraseIdx k
        excused := Inbound.relays message ++ w.excused } := by
  have hsub : ∀ message ∈ w.inbound.eraseIdx k, message ∈ w.inbound := fun _ hm =>
    List.mem_of_mem_eraseIdx hm
  refine ⟨rfl, rfl, rfl, List.subset_append_right _ _, ?_, ?_, fun entry he => .inl he, ?_⟩
  · simp only [Keyed]
    grind
  · simp only [Cancels]
    grind
  · intro j relay _ _ hway
    rcases hway with ⟨c, hway⟩ | hway
    · rcases eq_or_mem_eraseIdx hk hway with rfl | hway
      · exact .inr (List.mem_append_left _ (List.mem_singleton_self _))
      · exact .inl (.inl ⟨c, hway⟩)
    · exact .inl (.inr hway)

theorem moves_loseOutbound {message : Outbound} (hk : w.outbound[k]? = some message) :
    Moves w
      { w with
        outbound := w.outbound.eraseIdx k
        excused := Outbound.relays message ++ w.excused } := by
  have hsub : ∀ message ∈ w.outbound.eraseIdx k, message ∈ w.outbound := fun _ hm =>
    List.mem_of_mem_eraseIdx hm
  refine ⟨rfl, rfl, rfl, List.subset_append_right _ _, ?_, ?_, fun entry he => .inl he, ?_⟩
  · simp only [Keyed]
    grind
  · simp only [Cancels]
    grind
  · intro j relay _ _ hway
    rcases hway with hway | hway | ⟨c, hway⟩
    · exact .inl (.inl hway)
    · exact .inl (.inr (.inl hway))
    · rcases eq_or_mem_eraseIdx hk hway with rfl | hway
      · exact .inr (List.mem_append_left _ (List.mem_singleton_self _))
      · exact .inl (.inr (.inr ⟨c, hway⟩))

/-! ## Steps of the relays -/

/-- What a step of a relay or of the waiters does: every relay `j` becomes `g j`. -/
structure Turns (w w' : World) (g : ℕ → Relay → Relay) : Prop where
  relays : ∀ j, w'.relays[j]? = (w.relays[j]?).map (g j)
  same : ∀ j relay, (g j relay).agent = relay.agent ∧ (g j relay).callId = relay.callId
  closed : ∀ (j : ℕ) (relay : Relay), w.relays[j]? = some relay → (g j relay).open = true →
    relay.open = true
  inFlight : ∀ (j : ℕ) (relay : Relay), w.relays[j]? = some relay → (g j relay).open = true →
    w'.inFlight relay.callId = w.inFlight relay.callId
  excused : w.excused ⊆ w'.excused
  keyed : ∀ callId i, w'.Keyed callId i → w.Refers callId i
  cancels : ∀ callId, w'.Cancels callId → w.Cancels callId
  watched : w'.watched = w.watched
  sound : ∀ (j : ℕ) (relay : Relay), w.relays[j]? = some relay → w'.Sound j (g j relay)

theorem Inv.turn {g : ℕ → Relay → Relay} (h : w.Inv) (ht : Turns w w' g) : w'.Inv := by
  have hback : ∀ (j : ℕ) (relay' : Relay), w'.relays[j]? = some relay' →
      ∃ relay, w.relays[j]? = some relay ∧ g j relay = relay' := fun j relay' hj => by
    rw [ht.relays] at hj
    exact Option.map_eq_some_iff.mp hj
  have hrefers : ∀ c i, w'.Refers c i → w.Refers c i := by
    rintro c i (hkeyed | ⟨relay', hi, hid, hopen⟩)
    · exact ht.keyed c i hkeyed
    · obtain ⟨relay, hrelay, rfl⟩ := hback i relay' hi
      exact .inr ⟨relay, hrelay, (ht.same i relay).2.symm.trans hid, ht.closed i relay hrelay hopen⟩
  refine ⟨fun c i j hi hj => h.one c i j (hrefers c i hi) (hrefers c j hj), ?_, ?_, ?_, ?_, ?_⟩
  · intro c i hi
    obtain ⟨relay, hrelay, hid⟩ := h.named c i (hrefers c i hi)
    exact ⟨g i relay, by rw [ht.relays, hrelay, Option.map_some], (ht.same i relay).2.trans hid⟩
  · intro j relay' hj hopen
    obtain ⟨relay, hrelay, rfl⟩ := hback j relay' hj
    rw [(ht.same j relay).1, (ht.same j relay).2, ht.inFlight j relay hrelay hopen]
    exact h.tracked j relay hrelay (ht.closed j relay hrelay hopen)
  · intro j relay' hj hopen hc
    obtain ⟨relay, hrelay, rfl⟩ := hback j relay' hj
    rw [(ht.same j relay).2] at hc
    exact ht.excused (h.cancels j relay hrelay (ht.closed j relay hrelay hopen) (ht.cancels _ hc))
  · intro entry hentry j relay' hj hopen hid
    obtain ⟨relay, hrelay, rfl⟩ := hback j relay' hj
    rw [ht.watched] at hentry
    rw [(ht.same j relay).2] at hid
    exact h.watched entry hentry j relay hrelay (ht.closed j relay hrelay hopen) hid
  · intro j relay' hj
    obtain ⟨relay, hrelay, rfl⟩ := hback j relay' hj
    exact ht.sound j relay hrelay

theorem refers_of_open (hi : w.relays[i]? = some relay)
    (hopen : relay.open = true) : w.Refers relay.callId i :=
  .inr ⟨relay, hi, rfl, hopen⟩

theorem Inv.holder (h : w.Inv) {j : ℕ} (hi : w.relays[i]? = some relay)
    (hopen : relay.open = true) (hj : w.pending relay.callId = some j) : j = i :=
  h.one relay.callId j i (.inl (.inl hj)) (refers_of_open hi hopen)

variable {agent : String} {reply : Option Resolution}

theorem turns_register (h : w.Inv)
    (hi : w.relays[i]? = some ⟨agent, callId, .tracked, reply⟩) :
    Turns w ((w.setPending callId (some i)).setStage i .registered)
      (fun j relay => if i = j then { relay with stage := .registered } else relay) := by
  have hnone : w.pending callId = none := by
    cases hj : w.pending callId with
    | none => rfl
    | some j =>
      obtain rfl := h.holder hi rfl hj
      exact absurd hj ((h.sound j _ hi).unregistered rfl callId)
  have hopen := refers_of_open hi rfl
  unfold setPending fill setStage
  refine ⟨fun j => ?_, fun j relay => ?_, fun j relay hj hg => ?_, fun _ _ _ _ => rfl,
    List.Subset.refl _, fun c j hj => ?_, fun _ hc => hc, rfl, fun j relay hj => ?_⟩
  · rw [List.getElem?_modify, List.getElem?_mapIdx]
    grind
  · grind
  · grind [open_iff]
  · simp only [Keyed, Function.update_apply] at hj
    by_cases hcj : c = callId ∧ j = i
    · obtain ⟨rfl, rfl⟩ := hcj
      exact hopen
    · refine .inl ?_
      simp only [Keyed]
      grind
  · obtain ⟨h1, h2, h3, h4, h5⟩ := h.sound j relay hj
    by_cases hij : i = j
    · subst hij
      cases hi.symm.trans hj
      rw [if_pos rfl]
      exact ⟨nofun, fun _ _ => Function.update_self _ _ _, h3, nofun, nofun⟩
    · rw [if_neg hij]
      refine ⟨fun hs c => ?_, fun hs hr => ?_, h3, h4, h5⟩
      · simp only [Function.update_apply]
        grind
      · simp only [Function.update_apply]
        grind

theorem turns_publish
    (h : w.Inv) (hi : w.relays[i]? = some ⟨agent, callId, .registered, reply⟩) :
    Turns w { w.setStage i .awaiting with inbound := w.inbound ++ [.request i callId] }
      (fun j relay => if i = j then { relay with stage := .awaiting } else relay) := by
  have hopen := refers_of_open hi rfl
  unfold setStage
  refine ⟨fun j => ?_, fun j relay => ?_, fun j relay hj hg => ?_, fun _ _ _ _ => rfl,
    List.Subset.refl _, fun c j hj => ?_, fun c hc => ?_, rfl, fun j relay hj => ?_⟩
  · rw [List.getElem?_modify]
    grind
  · grind
  · grind [open_iff]
  · simp only [Keyed] at hj
    by_cases hcj : c = callId ∧ j = i
    · obtain ⟨rfl, rfl⟩ := hcj
      exact hopen
    · refine .inl ?_
      simp only [Keyed]
      grind
  · simp only [Cancels] at hc ⊢
    grind
  · obtain ⟨h1, h2, h3, h4, h5⟩ := h.sound j relay hj
    by_cases hij : i = j
    · subst hij
      cases hi.symm.trans hj
      rw [if_pos rfl]
      exact ⟨nofun, fun _ hr => h2 (.inl rfl) hr, h3, nofun, fun _ _ _ =>
        .inl ⟨callId, List.mem_append_right _ (List.mem_singleton_self _)⟩⟩
    · rw [if_neg hij]
      refine ⟨h1, h2, h3, h4, fun hs hr hstand => ?_⟩
      have hway := h5 hs hr hstand
      simp only [UnderWay] at hway ⊢
      grind

theorem turns_wake
    (h : w.Inv) (hi : w.relays[i]? = some ⟨agent, callId, .awaiting, some r⟩) :
    Turns w (w.setStage i (.resolved r))
      (fun j relay => if i = j then { relay with stage := .resolved r } else relay) := by
  unfold setStage
  refine ⟨fun j => ?_, fun j relay => ?_, fun j relay hj hg => ?_, fun _ _ _ _ => rfl,
    List.Subset.refl _, fun _ _ hj => .inl hj, fun _ hc => hc, rfl, fun j relay hj => ?_⟩
  · rw [List.getElem?_modify]
    grind
  · grind
  · grind [open_iff]
  · obtain ⟨h1, h2, h3, h4, h5⟩ := h.sound j relay hj
    by_cases hij : i = j
    · subst hij
      cases hi.symm.trans hj
      rw [if_pos rfl]
      refine ⟨nofun, nofun, h3, fun r' hr' => ?_, nofun⟩
      cases hr'
      exact h3 rfl r rfl
    · rw [if_neg hij]
      exact ⟨h1, h2, h3, h4, h5⟩

theorem turns_untrack
    (h : w.Inv) (hi : w.relays[i]? = some ⟨agent, callId, .resolved r, reply⟩) :
    Turns w
      { w.setStage i (.finished r) with inFlight := Function.update w.inFlight callId none }
      (fun j relay => if i = j then { relay with stage := .finished r } else relay) := by
  have hopen := refers_of_open hi rfl
  unfold setStage
  refine ⟨fun j => ?_, fun j relay => ?_, fun j relay hj hg => ?_, fun j relay hj hg => ?_,
    List.Subset.refl _, fun _ _ hj => .inl hj, fun _ hc => hc, rfl, fun j relay hj => ?_⟩
  · rw [List.getElem?_modify]
    grind
  · grind
  · grind [open_iff]
  · by_cases hij : i = j
    · rw [if_pos hij] at hg
      exact absurd rfl (open_iff.mp hg r)
    · rw [if_neg hij] at hg
      refine Function.update_of_ne (fun hid => hij ?_) _ _
      exact h.one callId i j hopen (hid ▸ refers_of_open hj hg)
  · obtain ⟨h1, h2, h3, h4, h5⟩ := h.sound j relay hj
    by_cases hij : i = j
    · subst hij
      cases hi.symm.trans hj
      rw [if_pos rfl]
      exact ⟨nofun, nofun, fun hg => absurd rfl (open_iff.mp hg r), h4, nofun⟩
    · rw [if_neg hij]
      exact ⟨h1, h2, h3, h4, h5⟩

theorem turns_drop {relay₀ : Relay} (h : w.Inv) (hi : w.relays[i]? = some relay₀)
    (hopen : relay₀.open = true) :
    Turns w { w.setStage i (.finished .dropped) with excused := i :: w.excused }
      (fun j relay => if i = j then { relay with stage := .finished .dropped } else relay) := by
  have hsub : w.excused ⊆ i :: w.excused := List.subset_cons_self _ _
  unfold setStage
  refine ⟨fun j => ?_, fun j relay => ?_, fun j relay hj hg => ?_, fun j relay hj hg => rfl,
    hsub, fun _ _ hj => .inl hj, fun _ hc => hc, rfl, fun j relay hj => ?_⟩
  · rw [List.getElem?_modify]
    grind
  · grind
  · grind
  · obtain ⟨h1, h2, h3, h4, h5⟩ := h.sound j relay hj
    by_cases hij : i = j
    · subst hij
      rw [if_pos rfl]
      refine ⟨nofun, nofun, fun hg => absurd rfl (open_iff.mp hg .dropped), fun r hr => ?_, nofun⟩
      cases hr
      exact .inr ⟨List.mem_cons_self, nofun⟩
    · rw [if_neg hij]
      exact ⟨h1, h2, fun hg r hr => (h3 hg r hr).mono hsub, fun r hr => (h4 r hr).mono hsub,
        fun hs hr hstand => h5 hs hr fun hex => hstand (hsub hex)⟩

theorem turns_fill (filled : ℕ → Relay → Bool) (r : Resolution) (h : w.Inv)
    (hrelays : ∀ j, w'.relays[j]? = (w.relays[j]?).map fun relay =>
      if filled j relay then Relay.fill r relay else relay)
    (hpending : ∀ c j, w'.pending c = some j → w.pending c = some j)
    (hgone : ∀ (j : ℕ) (relay : Relay), w.relays[j]? = some relay →
      w.pending relay.callId = some j →
        w'.pending relay.callId = some j ∨ filled j relay = true)
    (hfair : ∀ (j : ℕ) (relay : Relay), w.relays[j]? = some relay → relay.open = true →
      filled j relay = true → w'.Fair j r)
    (hrest : w'.inFlight = w.inFlight ∧ w'.inbound = w.inbound ∧ w'.spawned = w.spawned ∧
      w'.tasks = w.tasks ∧ w'.handles = w.handles ∧ w'.cancelling = w.cancelling ∧
      w'.watched = w.watched)
    (hexcused : w.excused ⊆ w'.excused) (hsub : ∀ message ∈ w'.outbound, message ∈ w.outbound)
    (hway : ∀ (j : ℕ) (relay : Relay) (c : String), w.relays[j]? = some relay →
      filled j relay = false → w.pending relay.callId = some j → .answer j c ∈ w.outbound →
        .answer j c ∈ w'.outbound) :
    Turns w w' fun j relay => if filled j relay then Relay.fill r relay else relay := by
  obtain ⟨hinFlight, hinbound, hspawned, htasks, hhandles, hcancelling, hwatched⟩ := hrest
  have hsame : ∀ relay, (Relay.fill r relay).stage = relay.stage ∧
      ((Relay.fill r relay).open = relay.open) := fun relay => ⟨rfl, by
    obtain ⟨agent, callId, stage, reply⟩ := relay
    cases stage <;> rfl⟩
  refine ⟨hrelays, fun j relay => ?_, fun j relay hj hg => ?_, fun j relay hj hg => ?_, hexcused,
    fun c j hj => .inl ?_, fun c hc => ?_, hwatched, fun j relay hj => ?_⟩
  · split <;> exact ⟨rfl, rfl⟩
  · split at hg
    · exact (hsame relay).2 ▸ hg
    · exact hg
  · rw [hinFlight]
  · simp only [Keyed, hinbound, hspawned, htasks, hhandles] at hj ⊢
    grind
  · simp only [Cancels, hinbound, hcancelling] at hc ⊢
    grind
  · obtain ⟨h1, h2, h3, h4, h5⟩ := h.sound j relay hj
    by_cases hf : filled j relay = true
    · rw [if_pos hf]
      have hnot : (Relay.fill r relay).reply ≠ none := by
        unfold Relay.fill
        cases relay.reply <;> simp
      refine ⟨fun hs c hc => h1 hs c (hpending c j hc), fun _ hr => absurd hr hnot,
        fun hg r' hr' => ?_, fun r' hr' => (h4 r' hr').mono hexcused, fun _ hr => absurd hr hnot⟩
      have hopen : relay.open = true := (hsame relay).2 ▸ hg
      unfold Relay.fill at hr'
      cases hreply : relay.reply with
      | none =>
        rw [hreply, Option.none_or] at hr'
        cases hr'
        exact hfair j relay hj hopen hf
      | some r₀ =>
        rw [hreply, Option.some_or] at hr'
        obtain rfl := Option.some.inj hr'
        exact (h3 hopen r₀ hreply).mono hexcused
    · rw [if_neg hf]
      refine ⟨fun hs c hc => h1 hs c (hpending c j hc), fun hs hr => ?_,
        fun hg r' hr' => (h3 hg r' hr').mono hexcused, fun r' hr' => (h4 r' hr').mono hexcused,
        fun hs hr hstand => ?_⟩
      · rcases hgone j relay hj (h2 hs hr) with hp | hp
        · exact hp
        · exact absurd hp hf
      · rcases h5 hs hr fun hex => hstand (hexcused hex) with ⟨c, hc⟩ | ⟨c, hc⟩ | ⟨c, hc⟩
        · exact .inl ⟨c, hinbound ▸ hc⟩
        · exact .inr (.inl ⟨c, htasks ▸ hc⟩)
        · exact .inr (.inr ⟨c, hway j relay c hj (Bool.eq_false_iff.mpr hf)
            (h2 (.inr hs) hr) hc⟩)

theorem Inv.take (h : w.Inv) (callId : String) (r : Resolution) (outbound : List Outbound)
    (excused : List ℕ)
    (hfair : ∀ (j : ℕ) (relay : Relay), w.relays[j]? = some relay → relay.open = true →
      relay.callId = callId → w.pending callId = some j →
        r = .reply j ∨ j ∈ excused ∧ ∀ k, r ≠ .reply k)
    (hexcused : w.excused ⊆ excused) (hsub : ∀ message ∈ outbound, message ∈ w.outbound)
    (hway : ∀ (j : ℕ) (relay : Relay) (c : String), w.relays[j]? = some relay →
      relay.callId ≠ callId → .answer j c ∈ w.outbound → .answer j c ∈ outbound) :
    Inv ({ w with
      pending := Function.update w.pending callId none
      outbound
      excused }.fill (w.pending callId) r) := by
  refine h.turn (turns_fill (fun j _ => decide (w.pending callId = some j)) r h
    (fun j => ?_) (fun c j hj => ?_) (fun j relay hj hp => ?_) (fun j relay hj hopen hf => ?_)
    ⟨rfl, rfl, rfl, rfl, rfl, rfl, rfl⟩ hexcused hsub fun j relay c hj hf hp hc => ?_)
  · unfold World.fill
    rw [List.getElem?_mapIdx]
    simp only [decide_eq_true_eq]
  · unfold World.fill at hj
    simp only [Function.update_apply] at hj
    grind
  · unfold World.fill
    simp only [Function.update_apply]
    by_cases hid : relay.callId = callId
    · exact .inr (decide_eq_true (hid ▸ hp))
    · exact .inl (by rw [if_neg hid]; exact hp)
  · have hp := of_decide_eq_true hf
    obtain ⟨relay', hj', hid⟩ := h.named callId j (.inl (.inl hp))
    cases hj.symm.trans hj'
    exact hfair j relay hj hopen hid hp
  · exact hway j relay c hj (fun hid => of_decide_eq_false hf (hid ▸ hp)) hc

theorem Inv.deliver (h : w.Inv) {message : Outbound} (hk : w.outbound[k]? = some message) :
    ({ w with outbound := w.outbound.eraseIdx k }.deliver message).Inv := by
  have hmem := List.mem_of_getElem? hk
  refine h.take message.callId (Outbound.resolution message) (w.outbound.eraseIdx k) w.excused
    (fun j relay hj hopen hid hp => ?_) (List.Subset.refl _)
    (fun m hm => List.mem_of_mem_eraseIdx hm) fun j relay c hj hid hc => ?_
  · cases message with
    | answer i callId =>
      have hone : i = j := h.one callId i j
        (.inl (.inr (.inr (.inr (.inr (.inr hmem)))))) (.inl (.inl hp))
      exact .inl (congrArg Resolution.reply hone)
    | cancelled callId =>
      exact .inr ⟨h.cancels j relay hj hopen (hid ▸ .inr (.inr hmem)), nofun⟩
  · rcases eq_or_mem_eraseIdx hk hc with rfl | hrest
    · obtain ⟨relay', hj', hid'⟩ := h.named c j (.inl (.inr (.inr (.inr (.inr (.inr hc))))))
      cases hj.symm.trans hj'
      exact absurd hid' hid
    · exact hrest

theorem Inv.abandon (h : w.Inv) {outstanding : List ℕ}
    (he : (callId, outstanding) ∈ w.watched) :
    Inv { w.setPending callId none with excused := outstanding ++ w.excused } :=
  h.take callId .disconnected w.outbound (outstanding ++ w.excused)
    (fun j relay hj hopen hid _ =>
      .inr ⟨List.mem_append_left _ (h.watched _ he j relay hj hopen hid), nofun⟩)
    (List.subset_append_right _ _) (fun _ hm => hm) fun _ _ _ _ _ hc => hc

theorem Inv.publish_failed (h : w.Inv)
    (hi : w.relays[i]? = some ⟨agent, callId, .registered, reply⟩) :
    Inv { (w.setPending callId none).setStage i (.resolved .sendFailed) with
      excused := i :: w.excused } := by
  have hmid : Inv { w.setPending callId none with excused := i :: w.excused } := by
    refine h.take callId .disconnected w.outbound (i :: w.excused)
      (fun j relay hj hopen hid hp => ?_) (List.subset_cons_self _ _) (fun _ hm => hm)
      fun _ _ _ _ _ hc => hc
    exact .inr ⟨h.holder hi rfl hp ▸ List.mem_cons_self, nofun⟩
  have hrelay : (w.setPending callId none).relays[i]? = some ⟨agent, callId, .registered,
      if w.pending callId = some i then reply.or (some .disconnected) else reply⟩ := by
    unfold setPending World.fill
    rw [List.getElem?_mapIdx, hi, Option.map_some]
    split <;> rfl
  have hopen : ∀ {reply}, (Relay.mk agent callId .registered reply).open = true := rfl
  refine hmid.turn (g := fun j relay =>
    if i = j then { relay with stage := .resolved .sendFailed } else relay)
    ⟨fun j => ?_, fun j relay => ?_, fun j relay hj hg => ?_, fun _ _ _ _ => rfl,
      List.Subset.refl _, fun _ _ hj => .inl hj, fun _ hc => hc, rfl, fun j relay hj => ?_⟩
  · unfold setStage
    rw [List.getElem?_modify]
    grind
  · grind
  · grind [open_iff]
  · obtain ⟨h1, h2, h3, h4, h5⟩ := hmid.sound j relay hj
    by_cases hij : i = j
    · subst hij
      rw [if_pos rfl]
      cases hrelay.symm.trans hj
      refine ⟨nofun, nofun, fun _ => h3 rfl, fun r hr => ?_, nofun⟩
      cases hr
      exact .inr ⟨List.mem_cons_self, nofun⟩
    · rw [if_neg hij]
      exact ⟨h1, h2, h3, h4, h5⟩

theorem Inv.disconnect (h : w.Inv) :
    Inv { w with
      pending := fun _ => none
      relays := w.relays.mapIdx fun i relay =>
        if w.pending relay.callId = some i then Relay.fill .disconnected relay else relay
      excused := (List.range w.relays.length).filter (fun i =>
        (w.relays[i]?).any fun relay => decide (w.pending relay.callId = some i)) ++
          w.excused } := by
  refine h.turn (turns_fill (fun j relay => decide (w.pending relay.callId = some j))
    .disconnected h (fun j => ?_) nofun (fun j relay hj hp => .inr (decide_eq_true hp))
    (fun j relay hj hopen hf => .inr ⟨List.mem_append_left _ ?_, nofun⟩)
    ⟨rfl, rfl, rfl, rfl, rfl, rfl, rfl⟩ (List.subset_append_right _ _) (fun _ hm => hm)
    fun _ _ _ _ _ _ hc => hc)
  · rw [List.getElem?_mapIdx]
    simp only [decide_eq_true_eq]
  · rw [List.mem_filter, List.mem_range]
    exact ⟨(List.getElem?_eq_some_iff.mp hj).1, by rw [hj, Option.any_some]; exact hf⟩

theorem free_of_inUse (h : w.inUse callId = false) :
    (∀ i, ¬ w.Refers callId i) ∧ ¬ w.Cancels callId ∧ ∀ entry ∈ w.watched, entry.1 ≠ callId := by
  simp only [inUse, Bool.or_eq_false_iff, Option.isSome_eq_false_iff, Option.isNone_iff_eq_none,
    Option.any_eq_false, List.any_eq_false, decide_eq_true_eq, decide_eq_false_iff_not,
    Bool.and_eq_true, not_and, Bool.not_eq_true] at h
  obtain ⟨⟨⟨⟨⟨⟨⟨⟨hpending, hhandles⟩, hspawned⟩, htasks⟩, hinbound⟩, houtbound⟩, hcancelling⟩,
    hwatched⟩, hrelays⟩ := h
  refine ⟨fun i hi => ?_, fun hc => ?_, hwatched⟩
  · rcases hi with (hp | hr | hs | ⟨replied, ht⟩ | hh | ha) | ⟨relay, hi, hid, hopen⟩
    · rw [hpending] at hp
      cases hp
    · exact hinbound _ hr rfl
    · exact hspawned _ hs rfl
    · exact htasks _ ht rfl
    · rw [hhandles] at hh
      cases hh
    · exact houtbound _ ha rfl
    · rw [hrelays relay (List.mem_of_getElem? hi) hid] at hopen
      cases hopen
  · rcases hc with hc | hc | hc
    · rw [List.contains_iff_mem.mpr hc] at hcancelling
      cases hcancelling
    · exact hinbound _ hc rfl
    · exact houtbound _ hc rfl

theorem Inv.request (h : w.Inv) (hfree : w.inUse callId = false) :
    Inv { w with
      relays := w.relays ++ [⟨agent, callId, .tracked, none⟩]
      inFlight := Function.update w.inFlight callId (some agent) } := by
  obtain ⟨hrefers, hcancels, hwatched⟩ := free_of_inUse hfree
  have hsplit : ∀ (j : ℕ) (relay : Relay),
      (w.relays ++ [⟨agent, callId, .tracked, none⟩])[j]? = some relay →
        w.relays[j]? = some relay ∨
          j = w.relays.length ∧ relay = ⟨agent, callId, .tracked, none⟩ :=
    fun _ _ => getElem?_snoc_cases
  have hold : ∀ (j : ℕ) (relay : Relay), w.relays[j]? = some relay →
      (w.relays ++ [⟨agent, callId, .tracked, none⟩])[j]? = some relay :=
    fun _ _ => getElem?_snoc_of_some
  have hnew : ∀ c, ¬ w.Refers c w.relays.length := by
    intro c hc
    obtain ⟨relay, hj, -⟩ := h.named c _ hc
    exact absurd (List.getElem?_eq_some_iff.mp hj).1 (Nat.lt_irrefl _)
  have hback : ∀ c j, Refers { w with
      relays := w.relays ++ [⟨agent, callId, .tracked, none⟩]
      inFlight := Function.update w.inFlight callId (some agent) } c j →
        w.Refers c j ∨ c = callId ∧ j = w.relays.length := by
    rintro c j (hk | ⟨relay, hj, hid, hopen⟩)
    · exact .inl (.inl hk)
    · rcases hsplit j relay hj with hj | ⟨rfl, rfl⟩
      · exact .inl (.inr ⟨relay, hj, hid, hopen⟩)
      · exact .inr ⟨hid.symm, rfl⟩
  refine ⟨fun c i j hi hj => ?_, fun c i hi => ?_, fun j relay hj hopen => ?_,
    fun j relay hj hopen hc => ?_, fun entry he j relay hj hopen hid => ?_, fun j relay hj => ?_⟩
  · rcases hback c i hi with hi | ⟨rfl, rfl⟩ <;> rcases hback c j hj with hj | ⟨hcj, rfl⟩
    · exact h.one c i j hi hj
    · exact absurd (hcj ▸ hi) (hrefers i)
    · exact absurd hj (hrefers j)
    · rfl
  · rcases hback c i hi with hi | ⟨rfl, rfl⟩
    · obtain ⟨relay, hj, hid⟩ := h.named c i hi
      exact ⟨relay, hold i relay hj, hid⟩
    · exact ⟨⟨agent, c, .tracked, none⟩, by simp, rfl⟩
  · rcases hsplit j relay hj with hj | ⟨rfl, rfl⟩
    · have hne : relay.callId ≠ callId := fun hid => hrefers j (hid ▸ refers_of_open hj hopen)
      exact (Function.update_of_ne hne _ _).trans (h.tracked j relay hj hopen)
    · exact Function.update_self _ _ _
  · rcases hsplit j relay hj with hj | ⟨rfl, rfl⟩
    · exact h.cancels j relay hj hopen hc
    · exact absurd hc hcancels
  · rcases hsplit j relay hj with hj | ⟨rfl, rfl⟩
    · exact h.watched entry he j relay hj hopen hid
    · exact absurd hid.symm (hwatched entry he)
  · rcases hsplit j relay hj with hj | ⟨rfl, rfl⟩
    · obtain ⟨h1, h2, h3, h4, h5⟩ := h.sound j relay hj
      exact ⟨h1, h2, h3, h4, h5⟩
    · exact ⟨fun _ c hc => hnew c (.inl (.inl hc)), nofun, nofun, nofun, nofun⟩

/-! ## Runs -/

theorem Inv.init : init.Inv where
  one _ _ _ hi := by
    rcases hi with (hp | hr | hs | ⟨replied, ht⟩ | hh | ha) | ⟨relay, hi, -⟩
    all_goals simp [World.init] at *
  named _ _ hi := by
    rcases hi with (hp | hr | hs | ⟨replied, ht⟩ | hh | ha) | ⟨relay, hi, -⟩
    all_goals simp [World.init] at *
  tracked _ _ hi := by cases hi
  cancels _ _ hi := by cases hi
  watched _ he := absurd he List.not_mem_nil
  sound _ _ hi := by cases hi

theorem Inv.step (h : w.Inv) {l : Label} (hfresh : w.freshId l = true)
    (hs : w.step? l = some w') : w'.Inv := by
  unfold step? at hs
  cases l with
  | request agent callId =>
    cases hs
    exact h.request (by simpa [freshId] using hfresh)
  | register i =>
    dsimp only at hs
    split at hs
    · cases hs
      exact h.turn (turns_register h ‹_›)
    · cases hs
  | publish i sent =>
    dsimp only at hs
    split at hs
    · split at hs
      · cases hs
        exact h.turn (turns_publish h ‹_›)
      · cases hs
        exact h.publish_failed ‹_›
    · cases hs
  | wake i =>
    dsimp only at hs
    split at hs
    · cases hs
      exact h.turn (turns_wake h ‹_›)
    · cases hs
  | untrack i =>
    dsimp only at hs
    split at hs
    · cases hs
      exact h.turn (turns_untrack h ‹_›)
    · cases hs
  | drop i =>
    dsimp only at hs
    split at hs
    · split at hs
      · cases hs
        exact h.turn (turns_drop h ‹_› ‹_›)
      · cases hs
    · cases hs
  | cancelOwn agent callId =>
    obtain ⟨hown, hs⟩ := Option.ite_none_right_eq_some.mp hs
    cases hs
    refine h.move (moves_cancelling fun i relay hi hopen hid => List.mem_append_left _ ?_)
    have hagent : relay.agent = agent :=
      Option.some.inj ((h.tracked i relay hi hopen).symm.trans (hid ▸ hown))
    exact List.mem_filter.mpr ⟨mem_outstanding.mpr ⟨relay, hi, hid, hopen⟩,
      by rw [hi, Option.any_some]; exact decide_eq_true hagent⟩
  | cancelOrphan callId =>
    obtain ⟨⟨-, hnone⟩, hs⟩ := Option.ite_none_right_eq_some.mp hs
    cases hs
    refine h.move (@moves_cancelling _ _ [] fun i relay hi hopen hid => ?_)
    have htracked := h.tracked i relay hi hopen
    rw [hid, hnone] at htracked
    cases htracked
  | sendCancel callId =>
    obtain ⟨hmem, hs⟩ := Option.ite_none_right_eq_some.mp hs
    cases hs
    exact h.move (moves_sendCancel hmem)
  | receive k refuse =>
    dsimp only at hs
    split at hs
    · rename_i message hk
      split_ifs at hs
      cases hs
      cases message with
      | request i callId => exact h.move (moves_receive_request refuse hk)
      | cancel callId => exact h.move (moves_receive_cancel h refuse hk)
    · cases hs
  | insertHandle =>
    dsimp only at hs
    split at hs
    · cases hs
      exact h.move (moves_insertHandle ‹_›)
    · cases hs
  | reply k =>
    dsimp only at hs
    split at hs
    · cases hs
      exact h.move (moves_reply ‹_›)
    · cases hs
  | finish k =>
    dsimp only at hs
    split at hs
    · cases hs
      exact h.move (moves_finish ‹_›)
    · cases hs
  | deliver k =>
    dsimp only at hs
    split at hs
    · cases hs
      exact h.deliver ‹_›
    · cases hs
  | loseInbound k =>
    dsimp only at hs
    split at hs
    · cases hs
      exact h.move (moves_loseInbound ‹_›)
    · cases hs
  | loseOutbound k =>
    dsimp only at hs
    split at hs
    · cases hs
      exact h.move (moves_loseOutbound ‹_›)
    · cases hs
  | report callId =>
    obtain ⟨-, hs⟩ := Option.ite_none_right_eq_some.mp hs
    cases hs
    exact h.move ⟨rfl, rfl, rfl, List.Subset.refl _, fun _ _ hk => hk, fun _ hc => .inl hc,
      fun entry he => .inl he, fun _ _ _ _ hway => .inl hway⟩
  | watch callId =>
    obtain ⟨-, hs⟩ := Option.ite_none_right_eq_some.mp hs
    cases hs
    refine h.move ⟨rfl, rfl, rfl, List.Subset.refl _, fun _ _ hk => hk, fun _ hc => .inl hc,
      fun entry he => ?_, fun _ _ _ _ hway => .inl hway⟩
    rcases List.mem_cons.mp he with rfl | he
    · exact .inr fun i relay hi hopen hid => mem_outstanding.mpr ⟨relay, hi, hid, hopen⟩
    · exact .inl he
  | abandon callId =>
    dsimp only at hs
    split at hs
    · rename_i entry hfind
      cases hs
      have hid := List.find?_some hfind
      obtain rfl := of_decide_eq_true hid
      exact h.abandon (List.mem_of_find?_eq_some hfind)
    · cases hs
  | forget callId =>
    cases hs
    exact h.move ⟨rfl, rfl, rfl, List.Subset.refl _, fun _ _ hk => hk, fun _ hc => .inl hc,
      fun entry he => .inl (List.mem_of_mem_filter he), fun _ _ _ _ hway => .inl hway⟩
  | disconnect =>
    cases hs
    exact h.disconnect

end World

/-- Two agents call tools under one id: the second waiter takes the place of the first, and gets the
reply to the first agent's call. -/
theorem reply_crossed : ¬ ∀ w, connection.Reachable w → w.Correlated := by
  intro h
  have hrun : ((System.steps? World.step? .init
      [.request "a" "call_0", .register 0, .publish 0 true,
        .request "b" "call_0", .register 1, .publish 1 true,
        .receive 0 false, .insertHandle, .reply 0, .deliver 0, .wake 1]).map (·.relays))
      = some [⟨"a", "call_0", .awaiting, some .disconnected⟩,
          ⟨"b", "call_0", .resolved (.reply 0), some (.reply 0)⟩] := by
    decide +kernel
  obtain ⟨w, hw, hrelays⟩ := Option.map_eq_some_iff.mp hrun
  obtain ⟨tr, htr, -⟩ := System.exec_steps? World.init hw
  have hown := (h w (htr.reachable (.init rfl))).own 1
    ⟨"b", "call_0", .resolved (.reply 0), some (.reply 0)⟩ 0 (by rw [hrelays]; rfl) rfl
  cases hown

/-- In a run that makes no request under an id in use, every relay gets its own reply or an error of
its own. -/
theorem replies_correlated {tr : List (World × World.Label × World)} {w : World}
    (h : connection.Exec World.init tr w) (hg : ∀ x ∈ tr, x.1.freshId x.2.1 = true) :
    w.Correlated := by
  have hinv : w.Inv := h.guarded (G := fun w l => w.freshId l = true) (I := World.Inv)
    (fun _ _ _ _ hw hl hs => hw.step hl hs) (.init rfl) World.Inv.init hg
  exact hinv.correlated

/-- Two calls under ids of their own, and a third that reuses the first one's id once it is over. -/
theorem replies_correlated_reused : ∃ tr w, connection.Exec World.init tr w ∧
    w.relays.map (·.stage) = [.finished (.reply 0), .awaiting, .resolved (.reply 2)] ∧
      w.Correlated := by
  have hrun : ((System.steps? (System.guarded? (fun w l => World.freshId w l = true) World.step?)
      .init
      [.request "a" "call_0", .register 0, .publish 0 true,
        .request "b" "call_1", .register 1, .publish 1 true,
        .receive 0 false, .insertHandle, .receive 0 false, .insertHandle,
        .reply 0, .deliver 0, .finish 0, .wake 0, .untrack 0,
        .request "b" "call_0", .register 2, .publish 2 true, .receive 0 false, .insertHandle,
        .reply 1, .deliver 0, .wake 2]).map (·.relays.map (·.stage)))
      = some [.finished (.reply 0), .awaiting, .resolved (.reply 2)] := by
    decide +kernel
  obtain ⟨w, hw, hstages⟩ := Option.map_eq_some_iff.mp hrun
  obtain ⟨tr, htr, -, hall⟩ := System.exec_guarded? World.init hw
  exact ⟨tr, w, htr, hstages, replies_correlated htr hall⟩

end Horsie.RuntimeHost

import Horsie.Reconciler.Runtime

/-!
# What reconcilers ask and are told

A round is about the calls that were outstanding when its ping was sent. A pong that answers it was
taken since, so that a call it lists has not been without the runtime for a whole round; a call it
does not list is not executed, unless it reached the runtime later.
-/

namespace Horsie.Reconciler

open Horsie.Lib

/-- What a round is about. -/
def Phase.asked? : Phase → Option Asked
  | .pinging asked | .cancelling asked _ _ | .judging asked _ _ _ | .failing asked _ => some asked
  | .sleeping _ | .stopped => none

def Phase.pong? : Phase → Option Pong
  | .cancelling _ pong _ | .judging _ pong _ _ => some pong
  | .sleeping _ | .pinging _ | .failing _ _ | .stopped => none

/-- When a round is judged. -/
def Phase.now? : Phase → Option ℕ
  | .judging _ _ now _ => some now
  | .sleeping _ | .pinging _ | .cancelling _ _ _ | .failing _ _ | .stopped => none

/-- The ids that a reconciler has yet to look at. -/
def Phase.reported : Phase → List String
  | .cancelling _ _ todo => todo
  | .sleeping _ | .pinging _ | .judging _ _ _ _ | .failing _ _ | .stopped => []

theorem Phase.asked?_of_pong? {phase : Phase} {pong : Pong} (h : phase.pong? = some pong) :
    phase.asked? ≠ none := by
  cases phase with
  | cancelling | judging => exact Option.some_ne_none _
  | sleeping | pinging | failing | stopped => cases h

namespace World

variable {w w' : World}

/-! ## Rounds -/

/-- What a judgement or an answer does to a slot. -/
structure SameRounds (w w' : World) : Prop where
  phase : ∀ s, (w'.slots s).phase = (w.slots s).phase
  probe : ∀ s, (w'.slots s).probe = (w.slots s).probe
  judgedAt : ∀ s, (w'.slots s).judgedAt = (w.slots s).judgedAt

theorem SameRounds.resolve (w : World) (s : ℕ) (callId : String) :
    SameRounds w (w.resolve s callId) :=
  ⟨update_field Slot.phase (by rfl), update_field Slot.probe (by rfl),
    update_field Slot.judgedAt (by rfl)⟩

theorem SameRounds.register (w : World) (i s : ℕ) (callId : String) :
    SameRounds w (((w.resolve s callId).setStage i .registered).setPending s callId i) :=
  ⟨fun s' => (update_field Slot.phase (by rfl) s').trans
      ((SameRounds.resolve w s callId).phase s'),
    fun s' => (update_field Slot.probe (by rfl) s').trans
      ((SameRounds.resolve w s callId).probe s'),
    fun s' => (update_field Slot.judgedAt (by rfl) s').trans
      ((SameRounds.resolve w s callId).judgedAt s')⟩

theorem SameRounds.setVanished (w : World) (s : ℕ) (callId : String) (since : Option ℕ) :
    SameRounds w (w.setVanished s callId since) :=
  ⟨update_field Slot.phase (by rfl), update_field Slot.probe (by rfl),
    update_field Slot.judgedAt (by rfl)⟩

theorem SameRounds.abandon (w : World) (s : ℕ) (callId : String) (failed : Option (List ℕ)) :
    SameRounds w (w.abandon s callId failed) :=
  ⟨(SameRounds.resolve w s callId).phase, (SameRounds.resolve w s callId).probe,
    (SameRounds.resolve w s callId).judgedAt⟩

theorem SameRounds.trans {w₁ w₂ w₃ : World} (h : SameRounds w₁ w₂) (h' : SameRounds w₂ w₃) :
    SameRounds w₁ w₃ :=
  ⟨fun s => (h'.phase s).trans (h.phase s), fun s => (h'.probe s).trans (h.probe s),
    fun s => (h'.judgedAt s).trans (h.judgedAt s)⟩

theorem SameRounds.judgeOne (w : World) (s : ℕ) (pong : Pong) (now : ℕ) (callId : String) :
    SameRounds w (w.judgeOne s pong now callId) := by
  unfold World.judgeOne
  split_ifs
  · exact .setVanished w s callId none
  · split
    · exact .setVanished w s callId (some now)
    · split_ifs
      · exact (SameRounds.abandon w s callId none).trans (.setVanished _ s callId none)
      · exact ⟨fun _ => rfl, fun _ => rfl, fun _ => rfl⟩

/-- What a step leaves alone that is not about rounds at all. -/
structure Aside (w w' : World) : Prop where
  calls : Later w.calls w'.calls
  rounds : SameRounds w w'
  pings : w'.pings = w.pings
  pongs : w'.pongs = w.pongs
  handles : ∀ x ∈ w'.handles, x ∈ w.handles
  arrivals : w'.arrivals = w.arrivals
  cancels : ∀ callId, Inbound.cancel callId ∈ w'.inbound → Inbound.cancel callId ∈ w.inbound
  running : ∀ x ∈ w'.running, x ∈ w.running
  count : w'.rounds = w.rounds

/-- What a step leaves alone that is about no round and no task that is struck. -/
structure Quiet (w w' : World) : Prop extends Aside w w' where
  clock : w.clock ≤ w'.clock
  vanished : ∀ s, (w'.slots s).vanished = (w.slots s).vanished
  failures : w'.failures = w.failures
  struck : w'.struck = w.struck

/-- Steps of calls, of tasks and of messages on their way. -/
def Label.quiet : Label → Prop
  | .register _ | .publish _ _ | .untrack _ | .drop _ | .loseInbound _ | .reply _ | .finish _
  | .deliver _ _ | .elapse _ => True
  | .request _ _ | .receive _ _ | .insertHandle | .ping _ | .pong _ | .accept _ _ | .cancel _
  | .judge _ | .fail _ | .giveUp _ | .forget _ => False

theorem SameRounds.same (h : w'.slots = w.slots) : SameRounds w w' :=
  ⟨fun _ => by rw [h], fun _ => by rw [h], fun _ => by rw [h]⟩

variable {slots : ℕ → Slot}

theorem Quiet.of_calls {calls : List Call} (hcalls : Later w.calls calls)
    (hslots : SameRounds w { w with calls := calls, slots := slots })
    (hvanished : ∀ s, (slots s).vanished = (w.slots s).vanished) :
    Quiet w { w with calls := calls, slots := slots } where
  calls := hcalls
  rounds := hslots
  pings := rfl
  pongs := rfl
  handles _ hx := hx
  arrivals := rfl
  cancels _ hc := hc
  running _ hx := hx
  count := rfl
  clock := Nat.le_refl _
  vanished := hvanished
  failures := rfl
  struck := rfl

theorem Quiet.of_tasks {inbound : List Inbound} {tasks : List Task}
    {handles : List (String × ℕ)} {replies : List String}
    (hcancels : ∀ callId, Inbound.cancel callId ∈ inbound → Inbound.cancel callId ∈ w.inbound)
    (htasks : ∀ x ∈ tasks.map fun task => (task.callId, task.call), x ∈ w.running)
    (hhandles : ∀ x ∈ handles, x ∈ w.handles) : Quiet w { w with
      inbound := inbound, tasks := tasks, handles := handles, replies := replies } where
  calls := .refl _
  rounds := .same rfl
  pings := rfl
  pongs := rfl
  handles := hhandles
  arrivals := rfl
  cancels := hcancels
  running := htasks
  count := rfl
  clock := Nat.le_refl _
  vanished _ := rfl
  failures := rfl
  struck := rfl

theorem Quiet.refuse (w : World) (k : ℕ) (callId : String) : Quiet w
    { w with inbound := w.inbound.eraseIdx k, replies := w.replies ++ [callId] } :=
  .of_tasks (fun _ hc => List.mem_of_mem_eraseIdx hc) (fun _ hx => hx)
    fun _ hx => hx

theorem Quiet.resolve (w : World) (s : ℕ) (callId : String) : Quiet w (w.resolve s callId) :=
  .of_calls (later_resolve s callId) (.resolve w s callId) (update_field Slot.vanished (by rfl))

variable {l : Label}

theorem Stepped.quiet (hs : w.Stepped l w') (hl : l.quiet) : Quiet w w' := by
  cases hs with
  | @register i s callId _ hi =>
    exact .of_calls (later_register hi) (.register w i s callId) fun s' =>
      (update_field Slot.vanished (by rfl) s').trans (update_field Slot.vanished (by rfl) s')
  | publish hi =>
    refine ⟨⟨Later.setStage w.calls hi rfl fun _ => rfl, .same rfl, rfl, rfl, fun _ hx => hx, rfl,
      fun callId' hmem => ?_, fun _ hx => hx, rfl⟩, Nat.le_refl _, fun _ => rfl, rfl, rfl⟩
    rcases List.mem_append.mp hmem with hmem | hmem
    · exact hmem
    · cases List.mem_singleton.mp hmem
  | @publishFailed i s callId _ hi =>
    have hrounds := SameRounds.resolve w s callId
    exact .of_calls (later_publish_failed hi) ⟨hrounds.phase, hrounds.probe, hrounds.judgedAt⟩
      (update_field Slot.vanished (by rfl))
  | untrack hi =>
    exact .of_calls (Later.setStage w.calls hi rfl fun hu => by simp [Call.unsent] at hu)
      ⟨update_field Slot.phase (by rfl), update_field Slot.probe (by rfl),
        update_field Slot.judgedAt (by rfl)⟩ (update_field Slot.vanished (by rfl))
  | drop hopen =>
    obtain ⟨c, hi, ho⟩ := (Option.any_eq_true _ _).mp hopen
    exact .of_calls (Later.setStage w.calls hi ho fun hu => by simp [Call.unsent] at hu)
      (.same rfl) fun _ => rfl
  | loseInbound k =>
    exact .of_tasks (fun _ hc => List.mem_of_mem_eraseIdx hc) (fun _ hx => hx)
      fun _ hx => hx
  | reply hk =>
    refine .of_tasks (fun _ hc => hc) (fun x hx => ?_) fun _ hx => hx
    obtain ⟨task, ht, rfl⟩ := List.mem_map.mp hx
    rcases List.mem_or_eq_of_mem_set ht with ht | rfl
    · exact List.mem_map_of_mem ht
    · exact List.mem_map.mpr ⟨_, List.mem_of_getElem? hk, rfl⟩
  | finish =>
    exact .of_tasks (fun _ hc => hc)
      (fun _ hx => ((List.eraseIdx_sublist _ _).map _).subset hx)
      fun _ hx => List.mem_of_mem_filter hx
  | deliver s k callId => exact .resolve w s callId
  | elapse seconds =>
    exact ⟨⟨.refl _, .same rfl, rfl, rfl, fun _ hx => hx, rfl, fun _ hc => hc, fun _ hx => hx,
      rfl⟩, Nat.le_add_right _ _, fun _ => rfl, rfl, rfl⟩
  | _ => exact hl.elim

theorem phase_setPhase (s s' : ℕ) (phase : Phase) :
    ((w.setPhase s phase).slots s').phase = if s' = s then phase else (w.slots s').phase := by
  show (Function.update w.slots s _ s').phase = _
  rw [Function.update_apply]
  split_ifs <;> rfl

/-- A round is about the calls in flight when it began; no other call has been through a round. -/
structure Asks (w : World) : Prop where
  calls : ∀ s asked, (w.slots s).phase.asked? = some asked → ∀ i ∈ asked.calls,
    ∃ c, w.calls[i]? = some c ∧ c.slot = s ∧ c.callId ∈ asked.outstanding
  covered : ∀ s asked, (w.slots s).phase.asked? = some asked → ∀ callId ∈ asked.outstanding,
    ∃ i ∈ asked.calls, ∃ c, w.calls[i]? = some c ∧ c.callId = callId
  outside : ∀ (i : ℕ) (c : Call) asked, w.calls[i]? = some c → c.waits = true →
    (w.slots c.slot).phase.asked? = some asked → i ∉ asked.calls → w.rounds i = 0
  new : ∀ i, w.calls.length ≤ i → w.rounds i = 0

variable {asked : Asked} {i s : ℕ}

theorem Asks.mem_calls (h : w.Asks) (hc : w.Client)
    (hs : (w.slots s).phase.asked? = some asked) {c : Call} (hi : w.calls[i]? = some c)
    (hid : c.callId ∈ asked.outstanding) : i ∈ asked.calls := by
  obtain ⟨j, hj, d, hd, hdid⟩ := h.covered s asked hs _ hid
  rwa [hc.call_inj hi hd hdid.symm]

theorem Asks.still (h : w.Asks) (hcalls : Later w.calls w'.calls)
    (hasked : ∀ s asked, (w'.slots s).phase.asked? = some asked →
      (w.slots s).phase.asked? = some asked)
    (hrounds : ∀ i, w.rounds i = 0 → w'.rounds i = 0 ∨
      ∃ c, w.calls[i]? = some c ∧ (w'.slots c.slot).phase.asked? = none) : w'.Asks := by
  refine ⟨fun s asked hs i hi => ?_, fun s asked hs callId hmem => ?_,
    fun i c' asked hi hw hs hno => ?_, fun i hlt => ?_⟩
  · obtain ⟨c, hc, hslot, hid⟩ := h.calls s asked (hasked s asked hs) i hi
    obtain ⟨c', hc', hslot', hid'⟩ := hcalls.back hc
    exact ⟨c', hc', hslot'.trans hslot, hid' ▸ hid⟩
  · obtain ⟨i, hi, c, hc, hid⟩ := h.covered s asked (hasked s asked hs) callId hmem
    obtain ⟨c', hc', -, hid'⟩ := hcalls.back hc
    exact ⟨i, hi, c', hc', hid'.trans hid⟩
  · obtain ⟨c, hc, hslot, -, -, hwaits, -⟩ := hcalls.call i c' hi
    have hold := h.outside i c asked hc (hwaits hw) (hslot ▸ hasked _ asked hs) hno
    rcases hrounds i hold with hzero | ⟨d, hd, hnone⟩
    · exact hzero
    · cases hc.symm.trans hd
      rw [hslot, hs] at hnone
      cases hnone
  · rw [hcalls.length] at hlt
    rcases hrounds i (h.new i hlt) with hzero | ⟨c, hc, -⟩
    · exact hzero
    · rw [List.getElem?_eq_none hlt] at hc
      cases hc

theorem Asks.same (h : w.Asks) (hcalls : Later w.calls w'.calls)
    (hasked : ∀ s, (w'.slots s).phase.asked? = (w.slots s).phase.asked?)
    (hrounds : w'.rounds = w.rounds) : w'.Asks :=
  h.still hcalls (fun s _ hs => (hasked s).symm.trans hs) fun _ hi => .inl (hrounds ▸ hi)

theorem Asks.request (h : w.Asks) (c : Call)
    (hphase : ∀ s, (slots s).phase = (w.slots s).phase) :
    Asks { w with calls := w.calls ++ [c], slots := slots } := by
  have hold : ∀ {i d}, w.calls[i]? = some d → (w.calls ++ [c])[i]? = some d :=
    getElem?_snoc_of_some
  refine ⟨fun s asked hs i hi => ?_, fun s asked hs callId hmem => ?_,
    fun i d asked hi hw hs hno => ?_, fun i hlt => ?_⟩
  · obtain ⟨d, hd, hrest⟩ := h.calls s asked (hphase s ▸ hs) i hi
    exact ⟨d, hold hd, hrest⟩
  · obtain ⟨i, hi, d, hd, hid⟩ := h.covered s asked (hphase s ▸ hs) callId hmem
    exact ⟨i, hi, d, hold hd, hid⟩
  · by_cases hlt : i < w.calls.length
    · have hi' : w.calls[i]? = some d := (List.getElem?_append_left hlt).symm.trans hi
      exact h.outside i d asked hi' hw (hphase _ ▸ hs) hno
    · exact h.new i (Nat.le_of_not_lt hlt)
  · have hlen : (w.calls ++ [c]).length ≤ i := hlt
    rw [List.length_append] at hlen
    exact h.new i (by omega)

theorem mem_outstanding : i ∈ w.outstanding s ↔
    ∃ c, w.calls[i]? = some c ∧ c.slot = s ∧ c.callId ∈ (w.slots s).inFlight := by
  unfold outstanding
  rw [List.mem_filter, List.mem_range, Option.any_eq_true]
  simp only [decide_eq_true_eq]
  refine ⟨fun h => h.2, fun h => ⟨?_, h⟩⟩
  obtain ⟨c, hc, -⟩ := h
  exact (List.getElem?_eq_some_iff.mp hc).1

theorem Asks.quiet (h : w.Asks) (hq : Quiet w w') : w'.Asks :=
  h.same hq.calls (fun s => congrArg Phase.asked? (hq.rounds.phase s)) hq.count

variable {slot : Slot}

theorem Asks.setSlot (h : w.Asks)
    (hasked : slot.phase.asked? = (w.slots s).phase.asked?) : (w.setSlot s slot).Asks :=
  h.same (.refl _) (update_field (fun slot => slot.phase.asked?) hasked) rfl

theorem Asks.endSlot (h : w.Asks) (hasked : slot.phase.asked? = none) :
    (w.setSlot s slot).Asks := by
  refine h.still (.refl _) (fun s' asked' hs' => ?_) fun i hi => .inl hi
  rcases @update_cases s w.slots slot s' with ⟨-, heq⟩ | ⟨-, heq⟩
  · have hs'' : (Function.update w.slots s slot s').phase.asked? = some asked' := hs'
    rw [heq, hasked] at hs''
    cases hs''
  · exact heq ▸ hs'

theorem Asks.ping (h : w.Asks) (hc : w.Client) {pings : List (ℕ × ℕ)}
    (hslot : slot.phase = .pinging ⟨(w.slots s).inFlight, w.outstanding s⟩) :
    Asks { w.setSlot s slot with pings } := by
  have hasked : ∀ {s' asked}, (Function.update w.slots s slot s').phase.asked? = some asked →
      s' = s ∧ asked = ⟨(w.slots s).inFlight, w.outstanding s⟩ ∨
        (w.slots s').phase.asked? = some asked := by
    intro s' asked hs'
    rw [Function.update_apply] at hs'
    split_ifs at hs' with heq
    · rw [hslot] at hs'
      exact .inl ⟨heq, (Option.some.inj hs').symm⟩
    · exact .inr hs'
  refine ⟨fun s' asked hs' i hi => ?_, fun s' asked hs' callId hmem => ?_,
    fun i c asked hi hw hs' hno => ?_, h.new⟩
  · rcases hasked hs' with ⟨rfl, rfl⟩ | hs'
    · exact mem_outstanding.mp hi
    · exact h.calls s' asked hs' i hi
  · rcases hasked hs' with ⟨rfl, rfl⟩ | hs'
    · obtain ⟨c, hmem', hslot', rfl⟩ := hc.known s' callId hmem
      obtain ⟨i, hi⟩ := List.mem_iff_getElem?.mp hmem'
      exact ⟨i, mem_outstanding.mpr ⟨c, hi, hslot', hmem⟩, c, hi, rfl⟩
    · exact h.covered s' asked hs' callId hmem
  · rcases hasked hs' with ⟨hslot', rfl⟩ | hs'
    · have hmem : i ∈ w.outstanding s := mem_outstanding.mpr
        ⟨c, hi, hslot', hslot' ▸ hc.tracked i c hi (Call.open_of_waits hw)⟩
      exact absurd hmem hno
    · exact h.outside i c asked hi hw hs' hno

theorem Asks.endRound (h : w.Asks) {now : ℕ}
    (hasked : (w.slots s).phase.asked? = some asked) : (w.endRound s asked now).Asks := by
  have hphase' : ∀ s', ((w.endRound s asked now).slots s').phase =
      if s' = s then .sleeping w.clock else (w.slots s').phase := by
    intro s'
    show (Function.update w.slots s _ s').phase = _
    rw [Function.update_apply]
    split_ifs <;> rfl
  refine h.still (.refl _) (fun s' asked' hs' => ?_) fun i hi => ?_
  · rw [hphase'] at hs'
    split_ifs at hs'
    · cases hs'
    · exact hs'
  · by_cases hmem : i ∈ asked.calls
    · obtain ⟨c, hci, hslot, -⟩ := h.calls s asked hasked i hmem
      refine .inr ⟨c, hci, ?_⟩
      rw [hphase', if_pos hslot]
      rfl
    · exact .inl ((if_neg hmem).trans hi)

theorem Asks.step (h : w.Asks) (hc : w.Client) (hs : w.step? l = some w') :
    w'.Asks := by
  have hquiet := (Stepped.of_step? hs).quiet
  cases Stepped.of_step? hs with
  | request s callId => exact h.request _ (update_field Slot.phase (by rfl))
  | register | publish | publishFailed | untrack | drop | loseInbound | reply | finish | deliver
  | elapse => exact h.quiet (hquiet trivial)
  | @refuse k callId => exact h.quiet (.refuse w k callId)
  | @spawn _ _ i =>
    refine h.still (.refl _) (fun _ _ hs => hs) fun j hj => .inl ?_
    show Function.update w.rounds i 0 j = 0
    rw [Function.update_apply]
    split_ifs
    · rfl
    · exact hj
  | abort | insertHandle | pong => exact h.same (.refl _) (fun _ => rfl) rfl
  | idle hphase => exact h.setSlot (by rw [hphase]; rfl)
  | ping => exact h.ping hc rfl
  | accept _ hphase | cancelled hphase | fail hphase => exact h.setSlot (by rw [hphase]; rfl)
  | cancel hphase =>
    exact h.same (.refl _) (update_field (fun slot => slot.phase.asked?) (by rw [hphase]; rfl)) rfl
  | @judge s asked pong now callId todo hphase =>
    have hjudged : (w.judgeOne s pong now callId).Asks :=
      h.same (later_judgeOne s pong now callId)
        (fun s' => congrArg _ ((SameRounds.judgeOne w s pong now callId).phase s'))
        (rounds_judgeOne ..)
    exact hjudged.setSlot (by rw [(SameRounds.judgeOne w s pong now callId).phase, hphase]; rfl)
  | endRound hphase => exact h.endRound (by rw [hphase]; rfl)
  | @giveUp s asked callId todo hphase =>
    have habandoned : (w.abandon s callId (some asked.calls)).Asks :=
      h.same (later_resolve s callId)
        (fun s' => congrArg _ ((SameRounds.abandon w s callId (some asked.calls)).phase s')) rfl
    exact habandoned.setSlot
      (by rw [(SameRounds.abandon w s callId (some asked.calls)).phase, hphase]; rfl)
  | gaveUp => exact (h.endSlot rfl).same (.refl _) (fun _ => rfl) rfl
  | forget => exact h.endSlot rfl

/-! ## Pongs -/

/-- What pongs say. A call of the slot that asked and that the pong lists was executed in this
round; a handle that a pong does not list was registered later; what is cancelled is over. -/
structure Reports (w : World) : Prop where
  pings : ∀ x ∈ w.pings, x.2 ≤ (w.slots x.1).probe
  pongs : ∀ p ∈ w.pongs, p.probe ≤ (w.slots p.asker).probe
  arrived : ∀ p ∈ w.pongs, p.arrivals ≤ w.arrivals.length
  registered : ∀ p ∈ w.pongs, ∀ x ∈ w.handles,
    x.1 ∈ p.executing ∨ x.1 ∈ w.arrivals.drop p.arrivals
  known : ∀ p ∈ w.pongs, ∀ callId ∈ p.executing, ∃ c ∈ w.calls, c.callId = callId
  held : ∀ s p, (w.slots s).phase.pong? = some p →
    p ∈ w.pongs ∧ ∀ callId ∈ (w.slots s).phase.reported, callId ∈ p.executing
  idle : ∀ x ∈ w.running, w.rounds x.2 = 0
  answer : ∀ p ∈ w.pongs, ∀ asked, (w.slots p.asker).phase = .pinging asked →
    p.probe = (w.slots p.asker).probe → ∀ (i : ℕ) (c : Call), w.calls[i]? = some c →
      c.slot = p.asker → c.callId ∈ p.executing → w.rounds i = 0
  own : ∀ s p, (w.slots s).phase.pong? = some p → ∀ (i : ℕ) (c : Call), w.calls[i]? = some c →
    c.slot = s → c.callId ∈ p.executing → w.rounds i = 0
  cancelled : ∀ callId, Inbound.cancel callId ∈ w.inbound → (∃ c ∈ w.calls, c.callId = callId) ∧
    ∀ c ∈ w.calls, c.callId = callId → c.open = false

/-- What a step leaves alone that is not about pongs. -/
structure ReportsStill (w w' : World) : Prop where
  calls : Later w.calls w'.calls
  pings : ∀ x ∈ w'.pings, x ∈ w.pings
  pongs : w'.pongs = w.pongs
  probe : ∀ s, (w'.slots s).probe = (w.slots s).probe
  handles : ∀ x ∈ w'.handles, x ∈ w.handles
  arrivals : w'.arrivals = w.arrivals
  cancels : ∀ callId, Inbound.cancel callId ∈ w'.inbound → Inbound.cancel callId ∈ w.inbound
  pinging : ∀ s asked, (w'.slots s).phase = .pinging asked → (w.slots s).phase = .pinging asked
  pong : ∀ s p, (w'.slots s).phase.pong? = some p → (w.slots s).phase.pong? = some p ∧
    ∀ callId ∈ (w'.slots s).phase.reported, callId ∈ (w.slots s).phase.reported
  idle : ∀ x ∈ w'.running, w'.rounds x.2 = 0
  rounds : ∀ (i : ℕ) (c : Call), w.calls[i]? = some c → w.rounds i = 0 →
    w'.rounds i = 0 ∨ (w'.slots c.slot).phase.asked? = none

theorem Reports.still (h : w.Reports) (hs : ReportsStill w w') : w'.Reports := by
  -- the rounds of a call in a slot that is in a round are counted as before
  have hzero : ∀ (i : ℕ) (c' : Call), w'.calls[i]? = some c' →
      (w'.slots c'.slot).phase.asked? ≠ none → (∀ c, w.calls[i]? = some c → c.slot = c'.slot →
        c.callId = c'.callId → w.rounds i = 0) → w'.rounds i = 0 := by
    intro i c' hi hasked hold
    obtain ⟨c, hc, hslot, hid, -⟩ := hs.calls.call i c' hi
    refine (hs.rounds i c hc (hold c hc hslot hid)).resolve_right ?_
    rw [hslot]
    exact hasked
  refine ⟨fun x hx => ?_, ?_, ?_, ?_, ?_, fun s p hp => ?_, hs.idle, ?_, ?_, ?_⟩
  · rw [hs.probe]
    exact h.pings x (hs.pings x hx)
  · rw [hs.pongs]
    simp only [hs.probe]
    exact h.pongs
  · rw [hs.pongs, hs.arrivals]
    exact h.arrived
  · rw [hs.pongs, hs.arrivals]
    exact fun p hp x hx => h.registered p hp x (hs.handles x hx)
  · rw [hs.pongs]
    exact fun p hp callId hmem => hs.calls.exists_id (h.known p hp callId hmem)
  · rw [hs.pongs]
    obtain ⟨hpong, htodo⟩ := hs.pong s p hp
    obtain ⟨hmem, hreported⟩ := h.held s p hpong
    exact ⟨hmem, fun callId hc => hreported callId (htodo callId hc)⟩
  · rw [hs.pongs]
    intro p hp asked hphase hprobe i c' hi hslot hmem
    refine hzero i c' hi ?_ fun c hc hslot' hid => ?_
    · rw [hslot, hphase]
      exact Option.some_ne_none _
    · rw [hs.probe] at hprobe
      exact h.answer p hp asked (hs.pinging _ _ hphase) hprobe i c hc (hslot'.trans hslot)
        (hid ▸ hmem)
  · intro s p hp i c' hi hslot hmem
    refine hzero i c' hi ?_ fun c hc hslot' hid => ?_
    · rw [hslot]
      exact Phase.asked?_of_pong? hp
    · exact h.own s p (hs.pong s p hp).1 i c hc (hslot'.trans hslot) (hid ▸ hmem)
  · intro callId hc
    obtain ⟨hknown, hover⟩ := h.cancelled callId (hs.cancels callId hc)
    refine ⟨hs.calls.exists_id hknown, fun c' hc' hid => ?_⟩
    obtain ⟨i, hi⟩ := List.mem_iff_getElem?.mp hc'
    obtain ⟨c, hci, -, hid', hopen, -⟩ := hs.calls.call i c' hi
    by_contra ho
    rw [Bool.not_eq_false] at ho
    have hclosed := hover c (List.mem_of_getElem? hci) (hid'.trans hid)
    rw [hopen ho] at hclosed
    cases hclosed

theorem Reports.aside (h : w.Reports) (hs : Aside w w') : w'.Reports := by
  refine h.still ⟨hs.calls, hs.pings ▸ fun _ hx => hx, hs.pongs, hs.rounds.probe, hs.handles,
    hs.arrivals, hs.cancels, fun s asked hp => ?_, fun s p hp => ?_, fun x hx => ?_,
    fun i c _ hi => .inl (hs.count ▸ hi)⟩
  · rwa [hs.rounds.phase] at hp
  · rw [hs.rounds.phase] at hp ⊢
    exact ⟨hp, fun _ hc => hc⟩
  · rw [hs.count]
    exact h.idle x (hs.running x hx)

theorem Reports.request (h : w.Reports) {c : Call} (hnew : ∀ d ∈ w.calls, d.callId ≠ c.callId)
    (hphase : ∀ s, (slots s).phase = (w.slots s).phase)
    (hprobe : ∀ s, (slots s).probe = (w.slots s).probe) :
    Reports { w with calls := w.calls ++ [c], slots := slots } := by
  have hknown : ∀ {callId}, (∃ d ∈ w.calls, d.callId = callId) →
      ∃ d ∈ w.calls ++ [c], d.callId = callId := by
    rintro callId ⟨d, hd, hid⟩
    exact ⟨d, List.mem_append_left _ hd, hid⟩
  have hold : ∀ {callId}, (∃ d ∈ w.calls, d.callId = callId) → c.callId ≠ callId := by
    rintro callId ⟨d, hd, hid⟩ heq
    exact hnew d hd (hid.trans heq.symm)
  refine ⟨fun x hx => ?_, fun p hp => ?_, h.arrived, h.registered,
    fun p hp callId hmem => hknown (h.known p hp callId hmem), fun s p hp => ?_, h.idle,
    fun p hp asked hpinging hpr i d hi hslot hmem => ?_, fun s p hp i d hi hslot hmem => ?_,
    fun callId hc => ?_⟩
  · exact (hprobe x.1).symm ▸ h.pings x hx
  · exact (hprobe p.asker).symm ▸ h.pongs p hp
  · rw [hphase s] at hp ⊢
    exact h.held s p hp
  · rcases getElem?_snoc_cases hi with hi | ⟨-, rfl⟩
    · exact h.answer p hp asked (hphase p.asker ▸ hpinging) (hprobe p.asker ▸ hpr) i d hi hslot hmem
    · exact absurd rfl (hold (h.known p hp d.callId hmem))
  · rw [hphase s] at hp
    rcases getElem?_snoc_cases hi with hi | ⟨-, rfl⟩
    · exact h.own s p hp i d hi hslot hmem
    · exact absurd rfl (hold (h.known p (h.held s p hp).1 d.callId hmem))
  · obtain ⟨hex, hover⟩ := h.cancelled callId hc
    refine ⟨hknown hex, fun d hd hid => ?_⟩
    rcases List.mem_append.mp hd with hd | hd
    · exact hover d hd hid
    · exact absurd (List.mem_singleton.mp hd ▸ hid) (hold hex)

theorem Reports.ping (h : w.Reports)
    (hphase : slot.phase = .pinging asked) (hprobe : slot.probe = (w.slots s).probe + 1) :
    Reports
      { w.setSlot s slot with pings := w.pings ++ [(s, (w.slots s).probe + 1)] } := by
  have hslot : ∀ s', s' = s ∧ Function.update w.slots s slot s' = slot ∨
      s' ≠ s ∧ Function.update w.slots s slot s' = w.slots s' := update_cases
  have hle : ∀ s', (w.slots s').probe ≤ (Function.update w.slots s slot s').probe := by
    intro s'
    rcases hslot s' with ⟨rfl, heq⟩ | ⟨-, heq⟩
    · rw [heq, hprobe]
      exact Nat.le_succ _
    · exact Nat.le_of_eq (by rw [heq])
  have hpong : ∀ s' p, (Function.update w.slots s slot s').phase.pong? = some p →
      Function.update w.slots s slot s' = w.slots s' := by
    intro s' p hp
    rcases hslot s' with ⟨-, heq⟩ | ⟨-, heq⟩
    · rw [heq, hphase] at hp
      cases hp
    · exact heq
  refine ⟨fun x hx => ?_, fun p hp => Nat.le_trans (h.pongs p hp) (hle p.asker), h.arrived,
    h.registered, h.known, fun s' p hp => ?_, h.idle, fun p hp asked' hpinging hpr => ?_,
    fun s' p hp => ?_, h.cancelled⟩
  · rcases List.mem_append.mp hx with hx | hx
    · exact Nat.le_trans (h.pings x hx) (hle x.1)
    · rw [List.mem_singleton.mp hx]
      show _ ≤ (Function.update w.slots s slot s).probe
      exact Nat.le_of_eq (by rw [Function.update_self, hprobe])
  · have hp' : (Function.update w.slots s slot s').phase.pong? = some p := hp
    show _ ∧ ∀ callId ∈ (Function.update w.slots s slot s').phase.reported, _
    have hsame := hpong s' p hp'
    rw [hsame] at hp' ⊢
    exact h.held s' p hp'
  · have hpinging' : (Function.update w.slots s slot p.asker).phase = .pinging asked' := hpinging
    have hpr' : p.probe = (Function.update w.slots s slot p.asker).probe := hpr
    rcases hslot p.asker with ⟨hs, heq⟩ | ⟨-, heq⟩
    · -- the pongs of earlier pings have earlier numbers
      rw [heq, hprobe] at hpr'
      have hlt := h.pongs p hp
      rw [hs] at hlt
      omega
    · rw [heq] at hpinging' hpr'
      exact h.answer p hp asked' hpinging' hpr'
  · have hp' : (Function.update w.slots s slot s').phase.pong? = some p := hp
    have hsame := hpong s' p hp'
    rw [hsame] at hp'
    exact h.own s' p hp'

theorem Reports.pong (h : w.Reports) (hr : w.Runtime) (hc : w.Client) {k probe : ℕ}
    (hk : w.pings[k]? = some (s, probe)) :
    Reports
      { w with
        pings := w.pings.eraseIdx k
        pongs := w.pongs ++ [⟨s, probe, w.handles.map Prod.fst, w.arrivals.length⟩] } := by
  -- what is listed is executed
  have hlisted : ∀ (i : ℕ) (c : Call), w.calls[i]? = some c →
      c.callId ∈ w.handles.map Prod.fst → w.rounds i = 0 := by
    intro i c hi hmem
    obtain ⟨x, hx, hid⟩ := List.mem_map.mp hmem
    obtain ⟨hrun, -⟩ := (hr.listed x).mp hx
    obtain ⟨d, hd, hid'⟩ := hr.sender x (List.mem_append_right _ hrun)
    rw [← hc.call_inj hd hi (hid'.trans hid)]
    exact h.idle x hrun
  have hcases : ∀ {P : Pong → Prop}, (∀ p ∈ w.pongs, P p) →
      P ⟨s, probe, w.handles.map Prod.fst, w.arrivals.length⟩ →
        ∀ p ∈ w.pongs ++ [⟨s, probe, w.handles.map Prod.fst, w.arrivals.length⟩], P p := by
    intro P hall hnew p hp
    rcases List.mem_append.mp hp with hp | hp
    · exact hall p hp
    · exact List.mem_singleton.mp hp ▸ hnew
  refine ⟨fun x hx => h.pings x (List.mem_of_mem_eraseIdx hx),
    hcases h.pongs (h.pings _ (List.mem_of_getElem? hk)), hcases h.arrived (Nat.le_refl _),
    hcases h.registered fun x hx => .inl (List.mem_map_of_mem hx),
    hcases h.known fun callId hmem => ?_, fun s' p hp => ?_, h.idle,
    hcases h.answer fun _ _ _ i c hi _ hmem => hlisted i c hi hmem, h.own, h.cancelled⟩
  · obtain ⟨x, hx, rfl⟩ := List.mem_map.mp hmem
    obtain ⟨d, hd, hid⟩ := hr.sender x (List.mem_append_right _ ((hr.listed x).mp hx).1)
    exact ⟨d, List.mem_of_getElem? hd, hid⟩
  · obtain ⟨hmem, hreported⟩ := h.held s' p hp
    exact ⟨List.mem_append_left _ hmem, hreported⟩

theorem Reports.accept (h : w.Reports) {k : ℕ} {pong : Pong}
    (hk : w.pongs[k]? = some pong) (hphase : (w.slots s).phase = .pinging asked)
    (hown : pong.asker = s) (hprobe : pong.probe = (w.slots s).probe) :
    (w.setPhase s (.cancelling asked pong pong.executing)).Reports := by
  have hmem := List.mem_of_getElem? hk
  have hsame : ∀ s', ((w.setPhase s (.cancelling asked pong pong.executing)).slots s').probe =
      (w.slots s').probe := update_field Slot.probe (by rfl)
  have hcases : ∀ {s' p}, ((w.setPhase s (.cancelling asked pong pong.executing)).slots
      s').phase.pong? = some p → s' = s ∧ p = pong ∨
        s' ≠ s ∧ (w.slots s').phase.pong? = some p := by
    intro s' p hp
    rw [phase_setPhase] at hp
    split_ifs at hp with heq
    · exact .inl ⟨heq, (Option.some.inj hp).symm⟩
    · exact .inr ⟨heq, hp⟩
  refine ⟨fun x hx => ?_, fun p hp => ?_, h.arrived, h.registered, h.known, fun s' p hp => ?_,
    h.idle, fun p hp asked' hpinging hpr => ?_, fun s' p hp => ?_, h.cancelled⟩
  · rw [hsame]
    exact h.pings x hx
  · rw [hsame]
    exact h.pongs p hp
  · rcases hcases hp with ⟨rfl, rfl⟩ | ⟨hne, hp'⟩
    · refine ⟨hmem, fun callId hc => ?_⟩
      rw [phase_setPhase, if_pos rfl] at hc
      exact hc
    · rw [phase_setPhase, if_neg hne]
      exact h.held s' p hp'
  · rw [phase_setPhase] at hpinging
    rw [hsame] at hpr
    split_ifs at hpinging
    exact h.answer p hp asked' hpinging hpr
  · rcases hcases hp with ⟨rfl, rfl⟩ | ⟨-, hp'⟩
    · rw [← hown] at hphase hprobe ⊢
      exact h.answer p hmem asked hphase hprobe
    · exact h.own s' p hp'

theorem Reports.setSlot (h : w.Reports)
    (hprobe : slot.probe = (w.slots s).probe)
    (hpinging : ∀ asked, slot.phase ≠ .pinging asked)
    (hpong : ∀ p, slot.phase.pong? = some p → (w.slots s).phase.pong? = some p ∧
      ∀ callId ∈ slot.phase.reported, callId ∈ (w.slots s).phase.reported) :
    (w.setSlot s slot).Reports := by
  have hslot : ∀ s', s' = s ∧ Function.update w.slots s slot s' = slot ∨
      s' ≠ s ∧ Function.update w.slots s slot s' = w.slots s' := update_cases
  refine h.still ⟨.refl _, fun _ hx => hx, rfl, fun s' => ?_, fun _ hx => hx, rfl,
    fun _ hc => hc, fun s' asked hp => ?_, fun s' p hp => ?_, h.idle, fun _ _ _ hi => .inl hi⟩
  · exact update_field Slot.probe hprobe s'
  · have hp' : (Function.update w.slots s slot s').phase = .pinging asked := hp
    rcases hslot s' with ⟨-, heq⟩ | ⟨-, heq⟩
    · exact absurd (heq ▸ hp') (hpinging asked)
    · exact heq ▸ hp'
  · have hp' : (Function.update w.slots s slot s').phase.pong? = some p := hp
    show _ ∧ ∀ callId ∈ (Function.update w.slots s slot s').phase.reported, _
    rcases hslot s' with ⟨rfl, heq⟩ | ⟨-, heq⟩
    · rw [heq] at hp' ⊢
      exact hpong p hp'
    · rw [heq] at hp' ⊢
      exact ⟨hp', fun _ hc => hc⟩

variable {callId : String}

theorem Reports.cancel (h : w.Reports) (hc : w.Client) {pong : Pong} {todo : List String}
    (hphase : (w.slots s).phase = .cancelling asked pong (callId :: todo))
    (hg : w.careful (.cancel s) = true) :
    Reports
      { w.setPhase s (.cancelling asked pong todo) with
        inbound :=
          if callId ∈ (w.slots s).inFlight then w.inbound
          else w.inbound ++ [.cancel callId] } := by
  have hbase : (w.setPhase s (.cancelling asked pong todo)).Reports := by
    refine h.setSlot rfl (fun _ => Phase.noConfusion) fun p hp => ?_
    rw [hphase]
    exact ⟨hp, fun _ hid => List.mem_cons_of_mem _ hid⟩
  refine { hbase with cancelled := fun callId' hmem => ?_ }
  split_ifs at hmem with hin
  · exact h.cancelled callId' hmem
  · rcases List.mem_append.mp hmem with hmem | hmem
    · exact h.cancelled callId' hmem
    · obtain rfl := Inbound.cancel.inj (List.mem_singleton.mp hmem)
      obtain ⟨hpong, hreported⟩ := h.held s pong (by rw [hphase]; rfl)
      have hid : callId' ∈ pong.executing :=
        hreported callId' (by rw [hphase]; exact List.mem_cons_self)
      refine ⟨h.known pong hpong callId' hid, fun c hmem' hcid => ?_⟩
      unfold careful at hg
      simp only [hphase, List.all_eq_true, Bool.or_eq_true, Bool.not_eq_true',
        decide_eq_true_eq] at hg
      rcases hg c hmem' with (hne | hslot) | hover
      · exact absurd hcid hne
      · -- a call of the slot that is not tracked is over
        obtain ⟨i, hi⟩ := List.mem_iff_getElem?.mp hmem'
        by_contra ho
        rw [Bool.not_eq_false] at ho
        exact hin (hslot ▸ hcid ▸ hc.tracked i c hi ho)
      · exact hover

theorem Reports.insertHandle (h : w.Reports) :
    Reports
      { w with
        spawned := none
        handles := (w.handles.filter fun x => decide (x.1 ≠ callId)) ++ [(callId, i)]
        arrivals := w.arrivals ++ [callId] } := by
  refine ⟨h.pings, h.pongs, fun p hp => ?_, fun p hp x hx => ?_, h.known, h.held, h.idle, h.answer,
    h.own, h.cancelled⟩
  · show p.arrivals ≤ (w.arrivals ++ [callId]).length
    rw [List.length_append]
    exact Nat.le_add_right_of_le (h.arrived p hp)
  · show _ ∨ x.1 ∈ (w.arrivals ++ [callId]).drop p.arrivals
    rw [List.drop_append_of_le_length (h.arrived p hp), List.mem_append]
    rcases List.mem_append.mp hx with hx | hx
    · exact (h.registered p hp x (List.mem_of_mem_filter hx)).imp_right .inl
    · rw [List.mem_singleton.mp hx]
      exact .inr (.inr (List.mem_singleton_self _))

theorem Reports.spawn (h : w.Reports) {k : ℕ} :
    Reports
      { w with
        inbound := w.inbound.eraseIdx k
        tasks := w.tasks ++ [⟨callId, i, false⟩]
        spawned := some (callId, i)
        rounds := Function.update w.rounds i 0 } := by
  have hzero : ∀ j, w.rounds j = 0 → Function.update w.rounds i 0 j = 0 := by
    intro j hj
    rw [Function.update_apply]
    split_ifs
    · rfl
    · exact hj
  refine h.still ⟨.refl _, fun _ hx => hx, rfl, fun _ => rfl, fun _ hx => hx, rfl,
    fun _ hc => List.mem_of_mem_eraseIdx hc, fun _ _ hp => hp, fun _ _ hp => ⟨hp, fun _ hc => hc⟩,
    fun x hx => ?_, fun j _ _ hj => .inl (hzero j hj)⟩
  have hx' : x ∈ List.map (fun task : Task => (task.callId, task.call))
      (w.tasks ++ [⟨callId, i, false⟩]) := hx
  rw [List.map_append] at hx'
  rcases List.mem_append.mp hx' with hx' | hx'
  · exact hzero x.2 (h.idle x hx')
  · rw [List.mem_singleton.mp hx']
    exact Function.update_self ..

theorem Reports.endRound (h : w.Reports) (ha : w.Asks) {now : ℕ}
    (hasked : (w.slots s).phase.asked? = some asked) : (w.endRound s asked now).Reports := by
  have hslot : ∀ s', s' = s ∧ ((w.endRound s asked now).slots s').phase = .sleeping w.clock ∨
      s' ≠ s ∧ ((w.endRound s asked now).slots s').phase = (w.slots s').phase := fun s' =>
    (update_cases s').imp (And.imp_right (congrArg Slot.phase))
      (And.imp_right (congrArg Slot.phase))
  refine h.still ⟨.refl _, fun _ hx => hx, rfl, update_field Slot.probe (by rfl), fun _ hx => hx,
    rfl, fun _ hc => hc, fun s' asked' hp => ?_, fun s' p hp => ?_, fun x hx => ?_,
    fun i c hi hzero => ?_⟩
  · rcases hslot s' with ⟨-, heq⟩ | ⟨-, heq⟩
    · rw [heq] at hp
      cases hp
    · rwa [heq] at hp
  · rcases hslot s' with ⟨-, heq⟩ | ⟨-, heq⟩
    · rw [heq] at hp
      cases hp
    · rw [heq] at hp ⊢
      exact ⟨hp, fun _ hc => hc⟩
  · show (if x.2 ∈ asked.calls then (if w.executes x.2 then 0 else w.rounds x.2 + 1)
      else w.rounds x.2) = 0
    have hex : w.executes x.2 = true := executes_iff.mpr ⟨x.1, hx⟩
    rw [if_pos hex, h.idle x hx, ite_self]
  · by_cases hmem : i ∈ asked.calls
    · obtain ⟨d, hd, hs, -⟩ := ha.calls s asked hasked i hmem
      cases hi.symm.trans hd
      rcases hslot c.slot with ⟨-, heq⟩ | ⟨hne, -⟩
      · rw [heq]
        exact .inr rfl
      · exact absurd hs hne
    · exact .inl ((if_neg hmem).trans hzero)

theorem Aside.judgeOne (w : World) (s : ℕ) (pong : Pong) (now : ℕ) (callId : String) :
    Aside w (w.judgeOne s pong now callId) := by
  have hrun := judgeOne_runtime (w := w) s pong now callId
  have hrest : (w.judgeOne s pong now callId).pings = w.pings ∧
      (w.judgeOne s pong now callId).pongs = w.pongs ∧
      (w.judgeOne s pong now callId).arrivals = w.arrivals ∧
      (w.judgeOne s pong now callId).inbound = w.inbound := by
    unfold World.judgeOne
    split_ifs
    · exact ⟨rfl, rfl, rfl, rfl⟩
    · split
      · exact ⟨rfl, rfl, rfl, rfl⟩
      · split_ifs <;> exact ⟨rfl, rfl, rfl, rfl⟩
  obtain ⟨hpings, hpongs, harrivals, hinbound⟩ := hrest
  exact ⟨hrun.calls, .judgeOne w s pong now callId, hpings, hpongs,
    fun _ hx => hrun.handles ▸ hx, harrivals, fun _ hc => hinbound ▸ hc,
    fun _ hx => hrun.running ▸ hx, rounds_judgeOne ..⟩

theorem Reports.init : init.Reports where
  pings x hx := absurd hx List.not_mem_nil
  pongs p hp := absurd hp List.not_mem_nil
  arrived p hp := absurd hp List.not_mem_nil
  registered p hp := absurd hp List.not_mem_nil
  known p hp := absurd hp List.not_mem_nil
  held s p hp := by cases hp
  idle x hx := absurd hx List.not_mem_nil
  answer p hp := absurd hp List.not_mem_nil
  own s p hp := by cases hp
  cancelled callId hc := absurd hc List.not_mem_nil

theorem Asks.init : init.Asks where
  calls s asked hs := by cases hs
  covered s asked hs := by cases hs
  outside i c asked hi := by simp [World.init] at hi
  new i hi := rfl

theorem Reports.step (h : w.Reports) (ha : w.Asks) (hr : w.Runtime) (hc : w.Client)
    (hg : w.careful l = true) (hs : w.step? l = some w') : w'.Reports := by
  have hquiet := (Stepped.of_step? hs).quiet
  cases Stepped.of_step? hs with
  | request s callId =>
    unfold careful at hg
    simp only [Bool.and_eq_true, List.all_eq_true, decide_eq_true_eq] at hg
    exact h.request hg.1 (update_field Slot.phase (by rfl)) (update_field Slot.probe (by rfl))
  | register | publish | publishFailed | untrack | drop | loseInbound | reply | finish | deliver
  | elapse => exact h.aside (hquiet trivial).toAside
  | @refuse k callId => exact h.aside (Quiet.refuse w k callId).toAside
  | spawn => exact h.spawn
  | abort =>
    exact h.aside ⟨.refl _, .same rfl, rfl, rfl, fun _ hx => List.mem_of_mem_filter hx, rfl,
      fun _ hc => List.mem_of_mem_eraseIdx hc, fun _ hx => (List.filter_sublist.map _).subset hx,
      rfl⟩
  | insertHandle => exact h.insertHandle
  | idle | fail | forget =>
    exact h.setSlot rfl (fun _ => Phase.noConfusion) (by rintro p ⟨⟩)
  | ping => exact h.ping rfl rfl
  | pong hk => exact h.pong hr hc hk
  | accept hk hphase hprobe =>
    unfold careful at hg
    simp only [hk, Option.all_some, decide_eq_true_eq] at hg
    exact h.accept hk hphase hg hprobe
  | cancel hphase => exact h.cancel hc hphase hg
  | cancelled hphase =>
    refine h.setSlot rfl (fun _ => Phase.noConfusion) fun p hp => ?_
    rw [hphase]
    exact ⟨hp, fun _ hid => absurd hid List.not_mem_nil⟩
  | @judge s asked pong now callId todo hphase =>
    refine (h.aside (.judgeOne w s pong now callId)).setSlot rfl (fun _ => Phase.noConfusion)
      fun p hp => ?_
    rw [(SameRounds.judgeOne w s pong now callId).phase, hphase]
    exact ⟨hp, fun _ hid => absurd hid List.not_mem_nil⟩
  | endRound hphase => exact h.endRound ha (by rw [hphase]; rfl)
  | @giveUp s asked callId =>
    have habandon : (w.abandon s callId (some asked.calls)).Reports :=
      h.aside ⟨later_resolve s callId, .abandon w s callId _, rfl, rfl, fun _ hx => hx, rfl,
        fun _ hc => hc, fun _ hx => hx, rfl⟩
    exact habandon.setSlot rfl (fun _ => Phase.noConfusion) (by rintro p ⟨⟩)
  | @gaveUp s =>
    have hslot : (w.setSlot s
        { w.slots s with phase := .sleeping w.clock, vanished := fun _ => none }).Reports :=
      h.setSlot rfl (fun _ => Phase.noConfusion) (by rintro p ⟨⟩)
    exact hslot.aside ⟨.refl _, .same rfl, rfl, rfl, fun _ hx => hx, rfl, fun _ hc => hc,
      fun _ hx => hx, rfl⟩

end World

end Horsie.Reconciler

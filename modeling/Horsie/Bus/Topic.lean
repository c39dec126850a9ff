import Horsie.Lib.Transition
import Horsie.Lib.Broadcast

/-!
# One topic of the bus

A frame is sent to a bounded channel that every subscriber reads at its own pace. `BusTransport` has
a task that reads replies for as long as there are any and hands each to the call that waits for it.
`Subscription::recv` makes one `None` of the channel's two errors, the end of the channel and a lag:
a reader that fell behind stops for good. Whether all readers last is exactly whether no receive
finds its reader too far behind (`subscriptions_last`).
-/

namespace Horsie.Bus

open Horsie.Lib

/-- How many frames a subscriber may fall behind before it is lagged. -/
def topicCapacity : ℕ := 256

inductive ReaderState
  | running
  | ended
  | aborted
deriving DecidableEq

/-- A subscriber, and the calls that wait for replies of it: from which frame on, by their ids. -/
structure BusTransport (Frame : Type) where
  start : ℕ
  next : ℕ
  received : List Frame
  reader : ReaderState
  pending : String → Option ℕ

structure Topic (Frame : Type) where
  published : List Frame
  isOpen : Bool
  transports : List (BusTransport Frame)

namespace Topic

variable {Frame Message : Type}

def init : Topic Frame := { published := [], isOpen := true, transports := [] }

inductive Label (Frame : Type)
  | publish (frame : Frame)
  /-- `BusTransport::open`. -/
  | subscribe
  | relay (i : ℕ) (callId : String)
  | abandon (i : ℕ) (callId : String)
  | receive (i : ℕ)
  | drop (i : ℕ)
  | close

section

variable (channel : Broadcast topicCapacity) (decode : Frame → Option Message)
  (outboundCallId : Message → Option String)

/-- The next frame, or `None` once there is an error. -/
def recv (t : Topic Frame) (next : ℕ) : Option (Option Frame × ℕ) :=
  (channel.recv t.published t.isOpen next).map fun (r, next') => (r.toOption, next')

def answers (frame : Frame) : Option String := (decode frame).bind outboundCallId

/-- The reader takes the waiter of the call, if there is one. -/
def route (frame : Frame) (pending : String → Option ℕ) : String → Option ℕ :=
  match answers decode outboundCallId frame with
  | some callId => Function.update pending callId none
  | none => pending

def step? (t : Topic Frame) : Label Frame → Option (Topic Frame)
  | .publish frame =>
    if t.isOpen then some { t with published := t.published ++ [frame] } else none
  | .subscribe =>
    if t.isOpen then
      some
        { t with
          transports := t.transports ++
            [{ start := t.published.length
               next := t.published.length
               received := []
               reader := .running
               pending := fun _ => none }] }
    else none
  | .relay i callId =>
    some
      { t with
        transports := t.transports.modify i fun b =>
          { b with pending := Function.update b.pending callId (some t.published.length) } }
  | .abandon i callId =>
    some
      { t with
        transports := t.transports.modify i fun b =>
          { b with pending := Function.update b.pending callId none } }
  | .receive i =>
    match t.transports[i]? with
    | some b =>
      if b.reader = .running then
        (t.recv channel b.next).map fun (r, next) =>
          match r with
          | some frame =>
            { t with
              transports := t.transports.set i
                { b with
                  next
                  received := b.received ++ [frame]
                  pending := route decode outboundCallId frame b.pending } }
          | none => { t with transports := t.transports.set i { b with next, reader := .ended } }
      else none
    | none => none
  | .drop i =>
    some { t with transports := t.transports.modify i fun b => { b with reader := .aborted } }
  | .close => some { t with isOpen := false }

end

end Topic

def topic {Frame Message : Type} (channel : Broadcast topicCapacity)
    (decode : Frame → Option Message) (outboundCallId : Message → Option String) :
    System (Topic Frame) (Topic.Label Frame) :=
  .ofStep? .init (Topic.step? channel decode outboundCallId)

namespace Topic

variable {Frame Message : Type} (channel : Broadcast topicCapacity)
  (decode : Frame → Option Message) (outboundCallId : Message → Option String)

/-! ## The property and its condition -/

/-- A subscriber reads on, and no call still waits for a reply that it has passed. -/
structure ReadsOn (published : List Frame) (b : BusTransport Frame) : Prop where
  running : b.reader = .running
  resolved : ∀ callId since, b.pending callId = some since → ∀ k frame, since ≤ k → k < b.next →
    published[k]? = some frame → answers decode outboundCallId frame ≠ some callId

/-- While the topic is open every subscriber that was not dropped reads on. -/
def Lasts (t : Topic Frame) : Prop :=
  t.isOpen = true → ∀ b ∈ t.transports, b.reader ≠ .aborted →
    ReadsOn decode outboundCallId t.published b

/-- Who receives from an open topic finds that the channel still holds its next frame. -/
def keepsUp (t : Topic Frame) : Label Frame → Bool
  | .receive i =>
    !t.isOpen || (t.transports[i]?).all fun b =>
      decide (b.reader ≠ .running) || decide (channel.oldest t.published.length ≤ b.next)
  | _ => true

/-! ## What holds in every run -/

/-- What a subscriber has received is part of what was published since it subscribed, in that
order. -/
structure InOrder (published : List Frame) (b : BusTransport Frame) : Prop where
  start : b.start ≤ b.next
  next : b.next ≤ published.length
  received : b.received.Sublist ((published.take b.next).drop b.start)

def Sound (t : Topic Frame) : Prop := ∀ b ∈ t.transports, InOrder t.published b

variable {channel decode outboundCallId} {t t' : Topic Frame} {published : List Frame}
  {b : BusTransport Frame}

theorem InOrder.publish (h : InOrder published b) (frame : Frame) :
    InOrder (published ++ [frame]) b := by
  refine ⟨h.start, Nat.le_trans h.next (by simp), ?_⟩
  rw [List.take_append_of_le_length h.next]
  exact h.received

theorem recv_some {next next' : ℕ} {frame : Frame}
    (h : t.recv channel next = some (some frame, next')) :
    channel.recv t.published t.isOpen next = some (.ok frame, next') := by
  obtain ⟨⟨r, n⟩, hr, heq⟩ := Option.map_eq_some_iff.mp h
  obtain ⟨hok, rfl⟩ := Prod.mk.inj heq
  cases r with
  | ok x => rw [hr, Option.some.inj hok]
  | error e => cases hok

theorem recv_none {next next' : ℕ} (h : t.recv channel next = some (none, next')) :
    ∃ e, channel.recv t.published t.isOpen next = some (.error e, next') := by
  obtain ⟨⟨r, n⟩, hr, heq⟩ := Option.map_eq_some_iff.mp h
  obtain ⟨hok, rfl⟩ := Prod.mk.inj heq
  cases r with
  | ok x => cases hok
  | error e => exact ⟨e, hr⟩

theorem mem_modify {l : List (BusTransport Frame)} {i : ℕ}
    {f : BusTransport Frame → BusTransport Frame} (h : b ∈ l.modify i f) :
    b ∈ l ∨ ∃ b' ∈ l, b = f b' := by
  obtain ⟨j, hj⟩ := List.mem_iff_getElem?.mp h
  rw [List.getElem?_modify] at hj
  obtain ⟨b', hb', rfl⟩ := Option.map_eq_some_iff.mp hj
  have hmem := List.mem_of_getElem? hb'
  split_ifs
  · exact .inr ⟨b', hmem, rfl⟩
  · exact .inl hmem

theorem Sound.modify (h : t.Sound) {f : BusTransport Frame → BusTransport Frame} (i : ℕ)
    (hf : ∀ b, (f b).start = b.start ∧ (f b).next = b.next ∧ (f b).received = b.received) :
    Sound { t with transports := t.transports.modify i f } := by
  intro b hb
  rcases mem_modify hb with hb | ⟨b', hb', rfl⟩
  · exact h b hb
  · obtain ⟨hstart, hnext, hreceived⟩ := hf b'
    have hb := h b' hb'
    refine ⟨?_, ?_, ?_⟩
    · rw [hstart, hnext]
      exact hb.start
    · rw [hnext]
      exact hb.next
    · rw [hstart, hnext, hreceived]
      exact hb.received

theorem Sound.step (h : t.Sound) {l : Label Frame}
    (hs : t.step? channel decode outboundCallId l = some t') : t'.Sound := by
  unfold step? at hs
  cases l with
  | publish frame =>
    split_ifs at hs
    cases hs
    exact fun b hb => (h b hb).publish frame
  | subscribe =>
    split_ifs at hs
    cases hs
    intro b hb
    rcases List.mem_append.mp hb with hb | hb
    · exact h b hb
    · obtain rfl := List.mem_singleton.mp hb
      exact ⟨Nat.le_refl _, Nat.le_refl _, List.nil_sublist _⟩
  | relay i callId =>
    cases hs
    exact h.modify i fun _ => ⟨rfl, rfl, rfl⟩
  | abandon i callId =>
    cases hs
    exact h.modify i fun _ => ⟨rfl, rfl, rfl⟩
  | receive i =>
    dsimp only at hs
    split at hs
    · rename_i b hb
      have hold := h b (List.mem_of_getElem? hb)
      obtain ⟨-, hs⟩ := Option.ite_none_right_eq_some.mp hs
      obtain ⟨⟨r, next⟩, hr, rfl⟩ := Option.map_eq_some_iff.mp hs
      cases r with
      | some frame =>
        have hrecv := recv_some hr
        obtain ⟨hfwd, hle⟩ := Broadcast.recv_next hrecv hold.next
        intro b' hb'
        rcases List.mem_or_eq_of_mem_set hb' with hb' | rfl
        · exact h b' hb'
        · exact ⟨Nat.le_trans hold.start hfwd, hle,
            Broadcast.recv_sublist hold.received hold.start hold.next hrecv⟩
      | none =>
        obtain ⟨e, hrecv⟩ := recv_none hr
        obtain ⟨hfwd, hle⟩ := Broadcast.recv_next hrecv hold.next
        have hsub := Broadcast.recv_sublist hold.received hold.start hold.next hrecv
        intro b' hb'
        rcases List.mem_or_eq_of_mem_set hb' with hb' | rfl
        · exact h b' hb'
        · refine ⟨Nat.le_trans hold.start hfwd, hle, ?_⟩
          rwa [show (Except.error e : Except _ Frame).toOption.toList = [] from rfl,
            List.append_nil] at hsub
    · cases hs
  | drop i =>
    cases hs
    exact h.modify i fun _ => ⟨rfl, rfl, rfl⟩
  | close =>
    cases hs
    exact h

theorem sound_of_reachable (h : (topic channel decode outboundCallId).Reachable t) : t.Sound :=
  h.invariant (by rintro _ rfl; exact fun _ hb => absurd hb List.not_mem_nil)
    fun _ _ _ _ ht hs => ht.step hs

/-! ## Reading on -/

theorem route_some {frame : Frame} {pending : String → Option ℕ} {callId : String} {since : ℕ}
    (h : route decode outboundCallId frame pending callId = some since) :
    pending callId = some since ∧ answers decode outboundCallId frame ≠ some callId := by
  unfold route at h
  cases ha : answers decode outboundCallId frame with
  | none =>
    rw [ha] at h
    exact ⟨h, (Option.some_ne_none callId).symm⟩
  | some answered =>
    simp only [ha, Function.update_apply] at h
    split_ifs at h with hid
    exact ⟨h, fun heq => hid (Option.some.inj heq).symm⟩

/-- A step from a topic whose subscribers read on leads to such a topic exactly if no receive finds
its subscriber too far behind. -/
theorem Lasts.step_iff (h : t.Lasts decode outboundCallId) (hsound : t.Sound) {l : Label Frame}
    (hs : t.step? channel decode outboundCallId l = some t') :
    t'.Lasts decode outboundCallId ↔ t.keepsUp channel l = true := by
  unfold step? at hs
  cases l with
  | publish frame =>
    split_ifs at hs
    cases hs
    refine iff_of_true (fun hopen b hb hlive => ?_) rfl
    obtain ⟨hrun, hres⟩ := h hopen b hb hlive
    refine ⟨hrun, fun callId since hp k frame' hk hkn hget => ?_⟩
    rw [List.getElem?_append_left (Nat.lt_of_lt_of_le hkn (hsound b hb).next)] at hget
    exact hres callId since hp k frame' hk hkn hget
  | subscribe =>
    split_ifs at hs
    cases hs
    refine iff_of_true (fun hopen b hb hlive => ?_) rfl
    rcases List.mem_append.mp hb with hb | hb
    · exact h hopen b hb hlive
    · obtain rfl := List.mem_singleton.mp hb
      exact ⟨rfl, fun callId since hp => by cases hp⟩
  | relay i callId =>
    cases hs
    refine iff_of_true (fun hopen b hb hlive => ?_) rfl
    rcases mem_modify hb with hb | ⟨b', hb', rfl⟩
    · exact h hopen b hb hlive
    · obtain ⟨hrun, hres⟩ := h hopen b' hb' hlive
      refine ⟨hrun, fun callId' since hp k frame hk hkn hget => ?_⟩
      simp only [Function.update_apply] at hp
      split_ifs at hp
      · -- the reader has not passed a frame that comes later
        cases hp
        exact absurd (hsound b' hb').next (Nat.not_le.mpr (Nat.lt_of_le_of_lt hk hkn))
      · exact hres callId' since hp k frame hk hkn hget
  | abandon i callId =>
    cases hs
    refine iff_of_true (fun hopen b hb hlive => ?_) rfl
    rcases mem_modify hb with hb | ⟨b', hb', rfl⟩
    · exact h hopen b hb hlive
    · obtain ⟨hrun, hres⟩ := h hopen b' hb' hlive
      refine ⟨hrun, fun callId' since hp => ?_⟩
      simp only [Function.update_apply] at hp
      split_ifs at hp
      exact hres callId' since hp
  | receive i =>
    dsimp only at hs
    split at hs
    · rename_i b hb
      obtain ⟨hrun, hs⟩ := Option.ite_none_right_eq_some.mp hs
      obtain ⟨⟨r, next⟩, hr, rfl⟩ := Option.map_eq_some_iff.mp hs
      have hguard : t.keepsUp channel (.receive i) = true ↔
          (t.isOpen = true → channel.oldest t.published.length ≤ b.next) := by
        simp only [keepsUp, hb, Option.all_some, hrun]
        cases t.isOpen <;> simp
      rw [hguard]
      have hmem := List.mem_of_getElem? hb
      cases r with
      | some frame =>
        obtain ⟨hget, hheld, rfl⟩ := Broadcast.recv_ok (recv_some hr)
        refine iff_of_true (fun hopen b' hb' hlive => ?_) fun _ => hheld
        rcases List.mem_or_eq_of_mem_set hb' with hb' | rfl
        · exact h hopen b' hb' hlive
        · obtain ⟨-, hres⟩ := h hopen b hmem (by rw [hrun]; exact ReaderState.noConfusion)
          refine ⟨hrun, fun callId since hp k frame' hk hkn hget' hanswers => ?_⟩
          obtain ⟨hold, hne⟩ := route_some hp
          rcases Nat.lt_succ_iff_lt_or_eq.mp hkn with hkn | rfl
          · exact hres callId since hold k frame' hk hkn hget' hanswers
          · rw [Option.some.inj (hget.symm.trans hget')] at hne
            exact hne hanswers
      | none =>
        obtain ⟨e, hrecv⟩ := recv_none hr
        refine ⟨fun hl hopen => ?_, fun hheld hopen => ?_⟩
        · have hlt : i < t.transports.length := (List.getElem?_eq_some_iff.mp hb).1
          have hended := (hl hopen _ (List.mem_set hlt _) ReaderState.noConfusion).running
          cases hended
        · rw [show t.isOpen = true from hopen] at hrecv
          exact absurd (hheld hopen) (Broadcast.recv_error hrecv)
    · cases hs
  | drop i =>
    cases hs
    refine iff_of_true (fun hopen b hb hlive => ?_) rfl
    rcases mem_modify hb with hb | ⟨b', hb', rfl⟩
    · exact h hopen b hb hlive
    · exact absurd rfl hlive
  | close =>
    cases hs
    exact iff_of_true (fun hopen => by cases hopen) rfl

end Topic

/-- A subscriber that is 257 frames behind stops, although its topic is open. -/
theorem lagged_reader_ends :
    ¬ ∀ (t : Topic String), (topic (.tight topicCapacity) some some).Reachable t →
      t.Lasts some some := by
  intro h
  have hrun : ((System.steps? (Topic.step? (.tight topicCapacity) some some) .init
      (.subscribe ::
        (List.replicate 257 (Topic.Label.publish "call_0") ++ [Topic.Label.receive 0]))).map
      fun t => (t.isOpen, t.transports.map (·.reader))) = some (true, [.ended]) := by
    decide +kernel
  obtain ⟨t, ht, hx⟩ := Option.map_eq_some_iff.mp hrun
  obtain ⟨tr, htr, -⟩ := System.exec_steps? Topic.init ht
  obtain ⟨hopen, hreaders⟩ := Prod.mk.inj hx
  obtain ⟨b, hb, hended⟩ := List.map_eq_singleton_iff.mp hreaders
  have hmem : b ∈ t.transports := by
    rw [hb]
    exact List.mem_cons_self
  have hruns := (h t (htr.reachable (.init rfl)) hopen b hmem
    (by rw [hended]; exact ReaderState.noConfusion)).running
  rw [hended] at hruns
  cases hruns

/-- In every run, what a subscriber has received is part of what was published since it subscribed,
in that order; and while the topic is open all subscribers read on, and resolve the calls whose
replies they pass, exactly if no receive finds that the channel has dropped its next frame. -/
theorem subscriptions_last {Frame Message : Type} {channel : Broadcast topicCapacity}
    {decode : Frame → Option Message} {outboundCallId : Message → Option String}
    {tr : List (Topic Frame × Topic.Label Frame × Topic Frame)} {t : Topic Frame}
    (h : (topic channel decode outboundCallId).Exec .init tr t) :
    (∀ b ∈ t.transports, b.received.Sublist (t.published.drop b.start)) ∧
      ((∀ x ∈ tr, x.2.2.Lasts decode outboundCallId) ↔
        ∀ x ∈ tr, x.1.keepsUp channel x.2.1 = true) := by
  refine ⟨fun b hb => ?_, ?_⟩
  · have hsound := Topic.sound_of_reachable (h.reachable (.init rfl)) b hb
    exact hsound.received.trans ((List.take_sublist _ _).drop _)
  · exact h.forall_iff (P := fun t => t.Lasts decode outboundCallId)
      (G := fun t l => t.keepsUp channel l = true)
      (fun _ _ _ hr hl hs => hl.step_iff (Topic.sound_of_reachable hr) hs) (.init rfl)
      fun _ b hb => absurd hb List.not_mem_nil

/-- A call is answered by the second of two frames. -/
theorem subscriptions_last_answered : ∃ tr t,
    (topic (.tight topicCapacity) some some).Exec (.init : Topic String) tr t ∧
      t.transports.map (·.received) = [["call_1", "call_0"]] ∧
      (∀ b ∈ t.transports, b.received.Sublist (t.published.drop b.start)) ∧
        ((∀ x ∈ tr, x.2.2.Lasts some some) ↔
          ∀ x ∈ tr, x.1.keepsUp (.tight topicCapacity) x.2.1 = true) := by
  have hrun : ((System.steps? (Topic.step? (.tight topicCapacity) some some) .init
      [.subscribe, .relay 0 "call_0", .publish "call_1", .publish "call_0", .receive 0,
        .receive 0]).map fun t => t.transports.map (·.received)) = some [["call_1", "call_0"]] := by
    decide +kernel
  obtain ⟨t, ht, hx⟩ := Option.map_eq_some_iff.mp hrun
  obtain ⟨tr, htr, -⟩ := System.exec_steps? Topic.init ht
  exact ⟨tr, t, htr, hx, subscriptions_last htr⟩

end Horsie.Bus

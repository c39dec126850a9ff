import Horsie.Lib.Take
import Horsie.Lib.Transition

/-!
# One vendor link

A connected vendor process's socket, shared by every agent and runtime behind it. A command carries
a fresh request id, under which the link keeps the sending end of its caller's channel; the read
loop takes it out when the reply comes. A relayed call's waiter also says which call on which
runtime it is, so that reconciliation can fail it. A caller may be dropped wherever it waits.

The model numbers the requests in the order they are entered; its request ids are these numbers.
-/

namespace Horsie.Runtime.Websocket

open Horsie.Lib

/-! ## Callers -/

/-- A vendor event, as far as `request` tells them apart. -/
inductive Event
  | requestFailed (message : String)
  | other (payload : String)
deriving DecidableEq

inductive RequestError
  | refused (message : String)
  | link (message : String)
deriving DecidableEq

/-- What the receiving end of a caller's channel finds: an event, or that the sending end is
gone. -/
inductive Received
  | event (e : Event)
  | disconnected
deriving DecidableEq

def Received.result : Received → Except RequestError String
  | event (.requestFailed message) => .error (.refused message)
  | event (.other payload) => .ok payload
  | disconnected => .error (.link "the runtime vendor disconnected")

/-- Where a caller stands in `request_inner`. -/
inductive Stage
  | entered
  /-- `write` found the link connected. -/
  | sending
  /-- `write` failed, and its waiter is to be removed. -/
  | unwritten (error : String)
  | waiting
  | timedOut
  | returned (result : Except RequestError String)
  | dropped
deriving DecidableEq

structure Caller where
  runtimeCall : Option (String × String)
  stage : Stage
  reply : Option Received
deriving DecidableEq

namespace Caller

def live (c : Caller) : Bool :=
  match c.stage with
  | .returned _ | .dropped => false
  | _ => true

/-- `write` went through, or is under way on a link that was connected. -/
def sent (c : Caller) : Bool := c.stage = .sending || c.stage = .waiting

def waits (c : Caller) : Bool := (c.stage = .entered || c.sent) && c.reply.isNone

end Caller

/-! ## The link -/

structure Waiter where
  requestId : ℕ
  runtimeCall : Option (String × String)
deriving DecidableEq

/-- The read loop: it runs, it has marked the link as not connected, it has dropped every
waiter. -/
inductive Reader
  | reading
  | leaving
  | cleared
deriving DecidableEq

structure Link where
  waiters : List Waiter
  callers : List Caller
  reader : Reader
deriving DecidableEq

/-- What a caller does next. -/
inductive Act
  /-- `write` looks whether the link is connected. -/
  | write
  | sent (error : Option String)
  | wake
  | timeout
  /-- After a failed write or too long a wait it removes its waiter and returns. -/
  | remove
  | drop
deriving DecidableEq

inductive Label
  /-- `request_inner` enters its waiter. -/
  | request (runtimeCall : Option (String × String))
  | caller (i : ℕ) (a : Act)
  | inbound (requestId : ℕ) (e : Event)
  /-- `fail_runtime_request`, with the waiter that its scan of the table comes to first. -/
  | failRuntimeRequest (runtimeId callId message : String) (requestId : Option ℕ)
  | die
  | clear
deriving DecidableEq

namespace Link

def start : Link := ⟨[], [], .reading⟩

def isReachable (s : Link) : Bool := s.reader = .reading

/-- The caller `i` goes on at a stage. -/
def move (s : Link) (i : ℕ) (c : Caller) (stage : Stage) : Link :=
  { s with callers := s.callers.set i { c with stage } }

def take (s : Link) (id : ℕ) : Link :=
  { s with waiters := s.waiters.filter (·.requestId ≠ id) }

/-- The waiter of a request id taken out and its caller told, where there is one. -/
def resolve (s : Link) (id : ℕ) (e : Event) : Link :=
  if s.waiters.any (·.requestId = id) then
    { s.take id with callers := s.callers.modify id fun c => { c with reply := some (.event e) } }
  else s

def callsOf (s : Link) (runtimeId callId : String) : List Waiter :=
  s.waiters.filter (·.runtimeCall = some (runtimeId, callId))

/-- Every waiter dropped, and with it the sending end of its caller's channel. -/
def clear (s : Link) : Link :=
  { waiters := []
    callers := s.callers.mapIdx fun i c =>
      if s.waiters.any (·.requestId = i) then { c with reply := some .disconnected } else c
    reader := .cleared }

def act? (s : Link) (i : ℕ) (c : Caller) : Act → Option Link
  | .write =>
    if c.stage = .entered then
      some (s.move i c
        (if s.isReachable then .sending else .unwritten "vendor process disconnected"))
    else none
  | .sent error =>
    if c.stage = .sending then some (s.move i c (error.elim .waiting .unwritten)) else none
  | .wake =>
    if c.stage = .waiting then c.reply.map fun r => s.move i c (.returned r.result) else none
  | .timeout => if c.stage = .waiting ∧ c.reply = none then some (s.move i c .timedOut) else none
  | .remove =>
    match c.stage with
    | .unwritten error => some ((s.take i).move i c (.returned (.error (.link error))))
    | .timedOut =>
      some ((s.take i).move i c
        (.returned (.error (.link "the runtime vendor did not answer in time"))))
    | _ => none
  | .drop => if c.live then some (s.move i c .dropped) else none

def step? (s : Link) : Label → Option Link
  | .request runtimeCall =>
    some
      { s with
        waiters := s.waiters ++ [⟨s.callers.length, runtimeCall⟩]
        callers := s.callers ++ [⟨runtimeCall, .entered, none⟩] }
  | .caller i a => s.callers[i]?.bind fun c => s.act? i c a
  | .inbound id e => if s.reader = .reading then some (s.resolve id e) else none
  | .failRuntimeRequest runtimeId callId _ none =>
    if s.callsOf runtimeId callId = [] then some s else none
  | .failRuntimeRequest runtimeId callId message (some id) =>
    if (s.callsOf runtimeId callId).any (·.requestId = id) then
      some (s.resolve id (.requestFailed message))
    else none
  | .die => if s.reader = .reading then some { s with reader := .leaving } else none
  | .clear => if s.reader = .leaving then some s.clear else none

end Link

abbrev link : System Link Label := System.ofStep? .start Link.step?

/-! ## Exactly the abandoned call -/

namespace Link

/-- Every entry is one of a caller that is still there. -/
def Kept (s : Link) : Prop :=
  ∀ w ∈ s.waiters, ∃ c, s.callers[w.requestId]? = some c ∧ c.live = true

/-- A step after which no live caller of a call that was just failed waits for it and nobody else
was failed, no caller waits on a dead link, and no caller that is gone has an entry. -/
structure Right (s : Link) (l : Label) (t : Link) : Prop where
  released : ∀ runtimeId callId message id, l = .failRuntimeRequest runtimeId callId message id →
    ∀ (i : ℕ) (c : Caller), t.callers[i]? = some c → c.runtimeCall = some (runtimeId, callId) →
      c.waits = false
  others : ∀ runtimeId callId message id, l = .failRuntimeRequest runtimeId callId message id →
    ∀ (i : ℕ) (c : Caller), s.callers[i]? = some c → c.runtimeCall ≠ some (runtimeId, callId) →
      t.callers[i]? = some c
  cleared : l = .clear → ∀ (i : ℕ) (c : Caller), s.callers[i]? = some c → c.waits = true →
    t.callers[i]? = some { c with reply := some .disconnected }
  dead : t.reader = .cleared → ∀ c ∈ t.callers, c.sent = true → c.reply.isSome = true
  kept : t.Kept

/-- No caller is dropped that has an entry, and no live caller waits on a call that is failed but
the one whose entry the scan comes to first. -/
def heeds (s : Link) : Label → Bool
  | .caller i .drop => s.waiters.all (·.requestId ≠ i)
  | .failRuntimeRequest runtimeId callId _ id =>
    s.callers.zipIdx.all fun x =>
      !(x.1.waits && x.1.runtimeCall = some (runtimeId, callId)) || id = some x.2
  | _ => true

/-! ### The table and the callers agree -/

structure Coherent (s : Link) : Prop where
  waiter : ∀ w ∈ s.waiters, ∃ c, s.callers[w.requestId]? = some c ∧
    c.runtimeCall = w.runtimeCall ∧ c.reply = none
  entry : ∀ (i : ℕ) (c : Caller), s.callers[i]? = some c → c.waits = true →
    ∃ w ∈ s.waiters, w.requestId = i
  dead : s.reader = .cleared → ∀ c ∈ s.callers, c.sent = true → c.reply.isSome = true

variable {s t : Link} {i : ℕ} {c : Caller} {stage : Stage}

theorem Coherent.move (h : s.Coherent) (hi : s.callers[i]? = some c)
    (hw : { c with stage }.waits = true → c.waits = true)
    (hsent : s.reader = .cleared → { c with stage }.sent = true → c.sent = true) :
    (s.move i c stage).Coherent where
  waiter w hm := by
    obtain ⟨d, hd, hcall, hreply⟩ := h.waiter w hm
    by_cases hiw : i = w.requestId
    · cases hi.symm.trans (hiw ▸ hd)
      refine ⟨{ c with stage }, ?_, hcall, hreply⟩
      rw [← hiw]
      exact List.getElem?_set_self (List.getElem?_eq_some_iff.mp hi).1
    · exact ⟨d, (List.getElem?_set_ne hiw).trans hd, hcall, hreply⟩
  entry j d hd hwaits := by
    rcases getElem?_set_cases hd with ⟨rfl, rfl⟩ | ⟨-, hd⟩
    · exact h.entry _ c hi (hw hwaits)
    · exact h.entry j d hd hwaits
  dead hcl d hd hs := by
    obtain ⟨j, hd⟩ := List.mem_iff_getElem?.mp hd
    rcases getElem?_set_cases hd with ⟨rfl, rfl⟩ | ⟨-, hd⟩
    · exact h.dead hcl c (List.mem_of_getElem? hi) (hsent hcl hs)
    · exact h.dead hcl d (List.mem_of_getElem? hd) hs

theorem mem_take {w : Waiter} : w ∈ (s.take i).waiters ↔ w ∈ s.waiters ∧ w.requestId ≠ i := by
  simp [take]

theorem Coherent.take (h : s.Coherent) (hi : s.callers[i]? = some c) (hw : c.waits = false) :
    (s.take i).Coherent where
  waiter w hm := h.waiter w (mem_take.mp hm).1
  entry j d hd hwaits := by
    obtain ⟨w, hm, hid⟩ := h.entry j d hd hwaits
    refine ⟨w, mem_take.mpr ⟨hm, fun hwi => ?_⟩, hid⟩
    obtain rfl := hid.symm.trans hwi
    cases hi.symm.trans hd
    exact absurd (hw.symm.trans hwaits) (by decide)
  dead := h.dead

theorem Coherent.resolve (h : s.Coherent) (id : ℕ) (e : Event) : (s.resolve id e).Coherent := by
  unfold Link.resolve
  split
  · constructor
    · intro w hm
      obtain ⟨hm, hid⟩ := mem_take.mp hm
      obtain ⟨d, hd, hrest⟩ := h.waiter w hm
      exact ⟨d, (List.getElem?_modify_ne _ _ (Ne.symm hid)).trans hd, hrest⟩
    · intro j d hd hwaits
      rcases getElem?_modify_cases hd with ⟨-, c, -, rfl⟩ | ⟨hj, hd⟩
      · simp [Caller.waits] at hwaits
      · obtain ⟨w, hm, hid⟩ := h.entry j d hd hwaits
        exact ⟨w, mem_take.mpr ⟨hm, hid ▸ hj⟩, hid⟩
    · intro hcl d hd hs
      obtain ⟨j, hd⟩ := List.mem_iff_getElem?.mp hd
      rcases getElem?_modify_cases hd with ⟨-, c, -, rfl⟩ | ⟨-, hd⟩
      · rfl
      · exact h.dead hcl d (List.mem_of_getElem? hd) hs
  · exact h

theorem Coherent.request (h : s.Coherent) (runtimeCall : Option (String × String))
    (ht : s.step? (.request runtimeCall) = some t) : t.Coherent := by
  cases ht
  constructor
  · intro w hm
    rcases List.mem_append.mp hm with hm | hm
    · obtain ⟨d, hd, hrest⟩ := h.waiter w hm
      exact ⟨d, getElem?_snoc_of_some hd, hrest⟩
    · obtain rfl := List.mem_singleton.mp hm
      exact ⟨_, List.getElem?_concat_length, rfl, rfl⟩
  · intro j d hd hwaits
    rcases getElem?_snoc_cases hd with hd | ⟨rfl, -⟩
    · obtain ⟨w, hm, hid⟩ := h.entry j d hd hwaits
      exact ⟨w, List.mem_append_left _ hm, hid⟩
    · exact ⟨_, List.mem_append_right _ (List.mem_singleton_self _), rfl⟩
  · intro hcl d hd hs
    rcases List.mem_append.mp hd with hd | hd
    · exact h.dead hcl d hd hs
    · obtain rfl := List.mem_singleton.mp hd
      cases hs

theorem clear_callers (j : ℕ) : s.clear.callers[j]? = s.callers[j]?.map fun c =>
    if s.waiters.any (·.requestId = j) then { c with reply := some .disconnected } else c := by
  rw [Link.clear, List.getElem?_mapIdx]

theorem clear_of_waits (h : s.Coherent) (hi : s.callers[i]? = some c) (hw : c.waits = true) :
    s.clear.callers[i]? = some { c with reply := some .disconnected } := by
  obtain ⟨w, hm, hid⟩ := h.entry i c hi hw
  have hany : s.waiters.any (·.requestId = i) = true :=
    List.any_eq_true.mpr ⟨w, hm, decide_eq_true hid⟩
  rw [clear_callers, hi, Option.map_some, if_pos hany]

theorem replied_of_sent (hw : c.waits = false) (hs : c.sent = true) : c.reply.isSome = true := by
  cases hr : c.reply with
  | none => simp [Caller.waits, hs, hr] at hw
  | some r => rfl

theorem clear_waits (h : s.Coherent) (hi : s.clear.callers[i]? = some c) : c.waits = false := by
  obtain ⟨d, hd, rfl⟩ := Option.map_eq_some_iff.mp ((clear_callers i).symm.trans hi)
  split
  · simp [Caller.waits]
  · rename_i hany
    by_contra hw
    obtain ⟨w, hm, hid⟩ := h.entry i d hd (by simpa using hw)
    exact hany (List.any_eq_true.mpr ⟨w, hm, decide_eq_true hid⟩)

theorem Coherent.clear (h : s.Coherent) : s.clear.Coherent where
  waiter w hm := by cases hm
  entry j d hd hwaits := absurd ((clear_waits h hd).symm.trans hwaits) (by decide)
  dead _ d hd hs := by
    obtain ⟨j, hd⟩ := List.mem_iff_getElem?.mp hd
    exact replied_of_sent (clear_waits h hd) hs

/-- A caller takes its next step: at another stage, where it waits or has sent only if it did, and
without its entry, where it returns after a failure. -/
inductive Moved (s : Link) (i : ℕ) (c : Caller) (a : Act) : Link → Prop
  | stay (stage : Stage) (hlive : { c with stage }.live = true)
      (hw : { c with stage }.waits = true → c.waits = true)
      (hsent : s.isReachable = false → { c with stage }.sent = true → c.sent = true) :
      Moved s i c a (s.move i c stage)
  | wake (r : Received) (hr : c.reply = some r) : Moved s i c a (s.move i c (.returned r.result))
  | remove (e : RequestError) (hw : c.waits = false) :
      Moved s i c a ((s.take i).move i c (.returned (.error e)))
  | drop (ha : a = .drop) : Moved s i c a (s.move i c .dropped)

variable {a : Act}

theorem moved_of_act? (h : s.act? i c a = some t) : Moved s i c a t := by
  cases a with
  | write =>
    obtain ⟨hstage, h⟩ := Option.ite_none_right_eq_some.mp h
    cases h
    refine .stay _ ?_ (fun hw => ?_) fun hreach hs => ?_
    · split <;> rfl
    · cases hr : c.reply <;> simp_all [Caller.waits]
    · rw [hreach] at hs
      cases hs
  | sent error =>
    obtain ⟨hstage, h⟩ := Option.ite_none_right_eq_some.mp h
    cases h
    cases error <;> exact .stay _ rfl (by simp [Caller.waits, Caller.sent, hstage])
      fun _ _ => by simp [Caller.sent, hstage]
  | wake =>
    obtain ⟨-, h⟩ := Option.ite_none_right_eq_some.mp h
    obtain ⟨r, hr, rfl⟩ := Option.map_eq_some_iff.mp h
    exact .wake r hr
  | timeout =>
    obtain ⟨-, h⟩ := Option.ite_none_right_eq_some.mp h
    cases h
    exact .stay _ rfl (by simp [Caller.waits, Caller.sent]) (by simp [Caller.sent])
  | remove =>
    simp only [act?] at h
    split at h
    · rename_i hstage
      cases h
      exact .remove _ (by simp [Caller.waits, Caller.sent, hstage])
    · rename_i hstage
      cases h
      exact .remove _ (by simp [Caller.waits, Caller.sent, hstage])
    · cases h
  | drop =>
    obtain ⟨-, h⟩ := Option.ite_none_right_eq_some.mp h
    cases h
    exact .drop rfl

theorem not_reachable_of_cleared (h : s.reader = .cleared) : s.isReachable = false := by
  simp [isReachable, h]

theorem Coherent.moved (h : s.Coherent) (hi : s.callers[i]? = some c)
    (hm : Moved s i c a t) : t.Coherent := by
  cases hm with
  | stay stage _ hw hsent => exact h.move hi hw fun hcl => hsent (not_reachable_of_cleared hcl)
  | wake r hr => exact h.move hi (by simp [Caller.waits, hr]) (by simp [Caller.sent])
  | remove e hw =>
    exact (h.take hi hw).move hi (by simp [Caller.waits, Caller.sent]) (by simp [Caller.sent])
  | drop ha => exact h.move hi (by simp [Caller.waits, Caller.sent]) (by simp [Caller.sent])

variable {l : Label}

theorem Coherent.step (h : s.Coherent) (ht : s.step? l = some t) : t.Coherent := by
  cases l with
  | request runtimeCall => exact h.request runtimeCall ht
  | caller i a =>
    obtain ⟨c, hi, ht⟩ := Option.bind_eq_some_iff.mp ht
    exact h.moved hi (moved_of_act? ht)
  | inbound id e =>
    obtain ⟨-, ht⟩ := Option.ite_none_right_eq_some.mp ht
    exact Option.some.inj ht ▸ h.resolve id e
  | failRuntimeRequest runtimeId callId message id =>
    cases id with
    | none =>
      obtain ⟨-, ht⟩ := Option.ite_none_right_eq_some.mp ht
      exact Option.some.inj ht ▸ h
    | some id =>
      obtain ⟨-, ht⟩ := Option.ite_none_right_eq_some.mp ht
      exact Option.some.inj ht ▸ h.resolve id _
  | die =>
    obtain ⟨-, ht⟩ := Option.ite_none_right_eq_some.mp ht
    cases ht
    exact ⟨h.waiter, h.entry, fun hcl => by cases hcl⟩
  | clear =>
    obtain ⟨-, ht⟩ := Option.ite_none_right_eq_some.mp ht
    exact Option.some.inj ht ▸ h.clear

theorem coherent (h : link.Reachable s) : s.Coherent := by
  refine h.invariant (fun s hs => ?_) fun s l t _ hs ht => hs.step ht
  obtain rfl := hs
  constructor
  · intro w hm
    cases hm
  · intro i c hc
    cases hc
  · intro hcl
    cases hcl

/-! ### Entries of callers that are gone -/

theorem Kept.move (h : s.Kept) (hi : s.callers[i]? = some c)
    (hl : { c with stage }.live = true ∨ ∀ w ∈ s.waiters, w.requestId ≠ i) :
    (s.move i c stage).Kept := by
  intro w hm
  obtain ⟨d, hd, hlive⟩ := h w hm
  by_cases hiw : i = w.requestId
  · rcases hl with hl | hl
    · refine ⟨{ c with stage }, ?_, hl⟩
      rw [← hiw]
      exact List.getElem?_set_self (List.getElem?_eq_some_iff.mp hi).1
    · exact absurd hiw.symm (hl w hm)
  · exact ⟨d, (List.getElem?_set_ne hiw).trans hd, hlive⟩

theorem Kept.take (h : s.Kept) : (s.take i).Kept := fun w hm => h w (mem_take.mp hm).1

theorem Kept.resolve (h : s.Kept) (id : ℕ) (e : Event) : (s.resolve id e).Kept := by
  unfold Link.resolve
  split
  · intro w hm
    obtain ⟨hm, hid⟩ := mem_take.mp hm
    obtain ⟨d, hd, hlive⟩ := h w hm
    exact ⟨d, (List.getElem?_modify_ne _ _ (Ne.symm hid)).trans hd, hlive⟩
  · exact h

/-- A caller's step leaves no entry of a caller that is gone exactly if it is not dropped with
one. -/
theorem kept_moved_iff (hc : s.Coherent) (h : s.Kept) (hi : s.callers[i]? = some c)
    (ht : s.act? i c a = some t) : t.Kept ↔ s.heeds (.caller i a) = true := by
  by_cases ha : a = .drop
  · subst ha
    obtain ⟨-, ht⟩ := Option.ite_none_right_eq_some.mp ht
    cases ht
    simp only [heeds, List.all_eq_true, decide_eq_true_eq]
    constructor
    · intro hk w hm hid
      obtain ⟨d, hd, hlive⟩ := hk w hm
      rw [hid, move, List.getElem?_set_self (List.getElem?_eq_some_iff.mp hi).1] at hd
      rw [← Option.some.inj hd] at hlive
      cases hlive
    · exact fun hno => h.move hi (.inr hno)
  · have hheeds : s.heeds (.caller i a) = true := by
      cases a <;> first | rfl | exact absurd rfl ha
    refine iff_of_true ?_ hheeds
    cases moved_of_act? ht with
    | stay stage hlive hw hsent => exact h.move hi (.inl hlive)
    | wake r hr =>
      refine h.move hi (.inr fun w hm hid => ?_)
      obtain ⟨d, hd, -, hreply⟩ := hc.waiter w hm
      cases hi.symm.trans (hid ▸ hd)
      rw [hr] at hreply
      cases hreply
    | remove e hw => exact h.take.move hi (.inr fun w hm => (mem_take.mp hm).2)
    | drop hdrop => exact absurd hdrop ha

/-! ### Failing a call -/

theorem resolve_others {id : ℕ} {e : Event} {runtimeCall : Option (String × String)}
    (h : s.Coherent) (hid : ∃ w ∈ s.waiters, w.requestId = id ∧ w.runtimeCall = runtimeCall)
    (hi : s.callers[i]? = some c) (hcall : c.runtimeCall ≠ runtimeCall) :
    (s.resolve id e).callers[i]? = some c := by
  obtain ⟨w, hm, rfl, rfl⟩ := hid
  have hne : w.requestId ≠ i := by
    rintro rfl
    obtain ⟨d, hd, hcalled, -⟩ := h.waiter w hm
    cases hi.symm.trans hd
    exact hcall hcalled
  unfold Link.resolve
  split
  · exact (List.getElem?_modify_ne _ _ hne).trans hi
  · exact hi

theorem resolve_waits {id : ℕ} {e : Event} (hid : ∃ w ∈ s.waiters, w.requestId = id) :
    (s.resolve id e).callers[i]? = some c ∧ c.waits = true ↔
      s.callers[i]? = some c ∧ c.waits = true ∧ i ≠ id := by
  obtain ⟨w, hm, rfl⟩ := hid
  have hany : s.waiters.any (·.requestId = w.requestId) = true :=
    List.any_eq_true.mpr ⟨w, hm, decide_eq_true rfl⟩
  rw [Link.resolve, if_pos hany]
  constructor
  · rintro ⟨hi, hw⟩
    rcases getElem?_modify_cases hi with ⟨-, d, -, rfl⟩ | ⟨hne, hi⟩
    · simp [Caller.waits] at hw
    · exact ⟨hi, hw, hne⟩
  · rintro ⟨hi, hw, hne⟩
    exact ⟨(List.getElem?_modify_ne _ _ (Ne.symm hne)).trans hi, hw⟩

variable {callId message runtimeId : String} {id : Option ℕ}

theorem heeds_fail_iff :
    s.heeds (.failRuntimeRequest runtimeId callId message id) = true ↔
      ∀ (i : ℕ) (c : Caller), s.callers[i]? = some c → c.runtimeCall = some (runtimeId, callId) →
        c.waits = true → id = some i := by
  simp only [heeds, List.all_eq_true, List.mem_zipIdx_iff_getElem?, Prod.forall]
  constructor
  · intro h i c hi hcall hw
    simpa [hw, hcall] using h c i hi
  · intro h c i hi
    by_cases hc : c.waits = true ∧ c.runtimeCall = some (runtimeId, callId)
    · simp [h i c hi hc.2 hc.1]
    · rw [not_and] at hc
      cases hw : c.waits with
      | false => rfl
      | true => simp [hc hw]

/-- What `fail_runtime_request` does: it tells the caller of one of the call's waiters, or there is
none. -/
theorem fail_cases
    (ht : s.step? (.failRuntimeRequest runtimeId callId message id) = some t) :
    (t = s ∧ id = none ∧ ∀ w ∈ s.waiters, w.runtimeCall ≠ some (runtimeId, callId)) ∨
      ∃ w ∈ s.waiters, w.runtimeCall = some (runtimeId, callId) ∧ id = some w.requestId ∧
        t = s.resolve w.requestId (.requestFailed message) := by
  cases id with
  | none =>
    obtain ⟨hnone, ht⟩ := Option.ite_none_right_eq_some.mp ht
    refine .inl ⟨(Option.some.inj ht).symm, rfl, fun w hm hcall => ?_⟩
    exact absurd (decide_eq_true hcall) (List.filter_eq_nil_iff.mp hnone w hm)
  | some id =>
    obtain ⟨hany, ht⟩ := Option.ite_none_right_eq_some.mp ht
    obtain ⟨w, hw, hid⟩ := List.any_eq_true.mp hany
    obtain ⟨hm, hcall⟩ := List.mem_filter.mp hw
    obtain rfl := of_decide_eq_true hid
    exact .inr ⟨w, hm, of_decide_eq_true hcall, rfl, (Option.some.inj ht).symm⟩

/-- Everybody who waits on a call that is failed is told, exactly if the first entry of the scan
is the only one of a caller that waits. -/
theorem released_iff
    (ht : s.step? (.failRuntimeRequest runtimeId callId message id) = some t) :
    (∀ (i : ℕ) (c : Caller), t.callers[i]? = some c → c.runtimeCall = some (runtimeId, callId) →
      c.waits = false) ↔
      s.heeds (.failRuntimeRequest runtimeId callId message id) = true := by
  rw [heeds_fail_iff]
  rcases fail_cases ht with ⟨rfl, rfl, -⟩ | ⟨w, hm, -, rfl, rfl⟩
  · constructor
    · intro h i c hi hcall hw
      exact absurd ((h i c hi hcall).symm.trans hw) (by decide)
    · intro h i c hi hcall
      by_contra hw
      cases h i c hi hcall (by simpa using hw)
  · constructor
    · intro h i c hi hcall hw
      by_contra hne
      have hti := (resolve_waits (e := .requestFailed message) ⟨w, hm, rfl⟩).mpr
        ⟨hi, hw, fun he => hne (by rw [he])⟩
      exact absurd ((h i c hti.1 hcall).symm.trans hw) (by decide)
    · intro h i c hi hcall
      by_contra hw
      obtain ⟨hi, hw, hne⟩ := (resolve_waits ⟨w, hm, rfl⟩).mp ⟨hi, by simpa using hw⟩
      exact hne (Option.some.inj (h i c hi hcall hw)).symm

theorem right_iff_parts (hc : s.Coherent) (ht : s.step? l = some t) :
    Right s l t ↔
      (∀ runtimeId callId message id, l = .failRuntimeRequest runtimeId callId message id →
        ∀ (i : ℕ) (c : Caller), t.callers[i]? = some c →
          c.runtimeCall = some (runtimeId, callId) → c.waits = false) ∧ t.Kept := by
  constructor
  · exact fun h => ⟨h.released, h.kept⟩
  · rintro ⟨hreleased, hkept⟩
    refine ⟨hreleased, ?_, ?_, (hc.step ht).dead, hkept⟩
    · rintro runtimeId callId message id rfl i c hi hcall
      rcases fail_cases ht with ⟨rfl, -, -⟩ | ⟨w, hm, hw, -, rfl⟩
      · exact hi
      · exact resolve_others hc ⟨w, hm, rfl, hw⟩ hi hcall
    · rintro rfl i c hi hw
      obtain ⟨-, ht⟩ := Option.ite_none_right_eq_some.mp ht
      exact Option.some.inj ht ▸ clear_of_waits hc hi hw

theorem right_iff (hc : s.Coherent) (h : s.Kept) (ht : s.step? l = some t) :
    Right s l t ↔ s.heeds l = true := by
  rw [right_iff_parts hc ht]
  cases l with
  | request runtimeCall =>
    cases ht
    refine iff_of_true ⟨fun _ _ _ _ hl => (by cases hl), fun w hm => ?_⟩ rfl
    rcases List.mem_append.mp hm with hm | hm
    · obtain ⟨d, hd, hlive⟩ := h w hm
      exact ⟨d, getElem?_snoc_of_some hd, hlive⟩
    · obtain rfl := List.mem_singleton.mp hm
      exact ⟨_, List.getElem?_concat_length, rfl⟩
  | caller i a =>
    obtain ⟨c, hi, ht⟩ := Option.bind_eq_some_iff.mp ht
    rw [← kept_moved_iff hc h hi ht]
    exact and_iff_right fun _ _ _ _ hl => by cases hl
  | inbound id e =>
    obtain ⟨-, ht⟩ := Option.ite_none_right_eq_some.mp ht
    exact iff_of_true ⟨fun _ _ _ _ hl => (by cases hl), Option.some.inj ht ▸ h.resolve id e⟩ rfl
  | failRuntimeRequest runtimeId callId message id =>
    have hkept : t.Kept := by
      rcases fail_cases ht with ⟨rfl, -, -⟩ | ⟨w, -, -, -, rfl⟩
      · exact h
      · exact h.resolve _ _
    rw [← released_iff ht]
    constructor
    · exact fun hr => hr.1 _ _ _ _ rfl
    · intro hr
      refine ⟨fun r k m j hl => ?_, hkept⟩
      obtain ⟨rfl, rfl, rfl, rfl⟩ := by simpa using hl
      exact hr
  | die =>
    obtain ⟨-, ht⟩ := Option.ite_none_right_eq_some.mp ht
    cases ht
    exact iff_of_true ⟨fun _ _ _ _ hl => (by cases hl), h⟩ rfl
  | clear =>
    obtain ⟨-, ht⟩ := Option.ite_none_right_eq_some.mp ht
    cases ht
    exact iff_of_true ⟨fun _ _ _ _ hl => (by cases hl), fun w hm => (by cases hm)⟩ rfl

end Link

/-- Abandoning releases exactly the abandoned call in a run exactly if no caller is dropped while
its entry is in the table, and no call is failed on which more callers wait than the one whose
entry is found first. -/
theorem abandoned_exactly_iff {s : Link} {tr : List (Link × Label × Link)}
    (h : link.Exec .start tr s) :
    (∀ x ∈ tr, Link.Right x.1 x.2.1 x.2.2) ↔ ∀ x ∈ tr, x.1.heeds x.2.1 = true := by
  have h0 : Link.start.Kept := fun w hm => by cases hm
  have hstep : ∀ s l t, link.Reachable s → s.Kept → link.Step s l t →
      (Link.Right s l t ↔ s.heeds l = true) :=
    fun s l t hs hk ht => Link.right_iff (Link.coherent hs) hk ht
  exact h.steps_iff (Q := Link.Right) (fun s l t hr => hr.kept) hstep (.init rfl) h0

/-- Two agents' calls on one runtime; the first is abandoned, the second answered. -/
theorem abandoned_exactly_answered : ∃ tr s, link.Exec .start tr s ∧
    (∀ x ∈ tr, Link.Right x.1 x.2.1 x.2.2) ∧ s.callers.map (·.stage) =
      [.returned (.error (.refused "gone")), .returned (.ok "done")] := by
  have hrun : ((System.steps? (System.guarded? (fun s l => Link.heeds s l = true) Link.step?)
      .start [.request (some ("rt", "a")), .caller 0 .write, .caller 0 (.sent none),
        .request (some ("rt", "b")), .caller 1 .write, .caller 1 (.sent none),
        .failRuntimeRequest "rt" "a" "gone" (some 0), .inbound 1 (.other "done"),
        .caller 0 .wake, .caller 1 .wake]).map fun s => s.callers.map (·.stage)) =
      some [.returned (.error (.refused "gone")), .returned (.ok "done")] := by
    decide +kernel
  obtain ⟨s, hs, hproj⟩ := Option.map_eq_some_iff.mp hrun
  obtain ⟨tr, htr, -, hg⟩ := System.exec_guarded? .start hs
  exact ⟨tr, s, htr, (abandoned_exactly_iff htr).mpr hg, hproj⟩

/-- A caller is dropped, another asks the same of the runtime, and the abandoned call's failure
goes to the one that is gone. -/
theorem abandoned_wrongly : ¬∀ (tr : List (Link × Label × Link)) (s : Link),
    link.Exec .start tr s → ∀ x ∈ tr, Link.Right x.1 x.2.1 x.2.2 := by
  intro h
  let s : Link := ⟨[⟨0, some ("rt", "a")⟩, ⟨1, some ("rt", "a")⟩],
    [⟨some ("rt", "a"), .dropped, none⟩, ⟨some ("rt", "a"), .waiting, none⟩], .reading⟩
  have hrun : System.steps? Link.step? .start
      [.request (some ("rt", "a")), .caller 0 .write, .caller 0 (.sent none), .caller 0 .drop,
        .request (some ("rt", "a")), .caller 1 .write, .caller 1 (.sent none)] = some s := by
    decide +kernel
  have hfail : link.Step s (.failRuntimeRequest "rt" "a" "gone" (some 0))
      (s.resolve 0 (.requestFailed "gone")) := rfl
  obtain ⟨tr, htr, -⟩ := System.exec_steps? .start hrun
  have hright := h _ _ (htr.snoc hfail) _ (List.mem_append_right _ (List.mem_singleton_self _))
  exact absurd (hright.released _ _ _ _ rfl 1 ⟨some ("rt", "a"), .waiting, none⟩ rfl rfl)
    (by decide)

end Horsie.Runtime.Websocket

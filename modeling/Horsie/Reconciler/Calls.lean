import Mathlib.Data.List.Nodup
import Horsie.Lib.Take
import Horsie.Reconciler.Rounds

/-!
# Calls of a runtime's slots

A slot tracks the calls that are not over and has a waiter for each that is waited for, and the
runtime has a handle for every task but the one it is registering.
-/

namespace Horsie.Reconciler

open Horsie.Lib

/-! ## Calls get on -/

/-- Calls keep their slots and ids, and what is over stays over. -/
structure Later (calls calls' : List Call) : Prop where
  length : calls'.length = calls.length
  call : ∀ (i : ℕ) (c' : Call), calls'[i]? = some c' → ∃ c, calls[i]? = some c ∧
    c.slot = c'.slot ∧ c.callId = c'.callId ∧ (c'.open = true → c.open = true) ∧
      (c'.waits = true → c.waits = true) ∧ (c'.unsent = true → c.unsent = true)

theorem Later.refl (calls : List Call) : Later calls calls :=
  ⟨rfl, fun _ c h => ⟨c, h, rfl, rfl, id, id, id⟩⟩

variable {calls calls' : List Call}

theorem Later.trans {calls'' : List Call} (h : Later calls calls')
    (h' : Later calls' calls'') : Later calls calls'' := by
  refine ⟨h'.length.trans h.length, fun i c'' hi => ?_⟩
  obtain ⟨c', hc', hslot', hid', hopen', hwaits', hunsent'⟩ := h'.call i c'' hi
  obtain ⟨c, hc, hslot, hid, hopen, hwaits, hunsent⟩ := h.call i c' hc'
  exact ⟨c, hc, hslot.trans hslot', hid.trans hid', hopen ∘ hopen', hwaits ∘ hwaits',
    hunsent ∘ hunsent'⟩

theorem getElem?_modify_eq_some {f : Call → Call} {i j : ℕ} {c' : Call} :
    (calls.modify i f)[j]? = some c' ↔
      ∃ c, calls[j]? = some c ∧ (if i = j then f c else c) = c' := by
  rw [List.getElem?_modify]
  exact Option.map_eq_some_iff

theorem Later.modify (calls : List Call) (i : ℕ) {f : Call → Call}
    (hf : ∀ c, (f c).slot = c.slot ∧ (f c).callId = c.callId ∧
      ((f c).open = true → c.open = true) ∧ ((f c).waits = true → c.waits = true) ∧
        ((f c).unsent = true → c.unsent = true)) : Later calls (calls.modify i f) := by
  refine ⟨List.length_modify .., fun j c' hj => ?_⟩
  obtain ⟨c, hc, rfl⟩ := getElem?_modify_eq_some.mp hj
  obtain ⟨hslot, hid, hopen, hwaits, hunsent⟩ := hf c
  refine ⟨c, hc, ?_⟩
  split_ifs
  · exact ⟨hslot.symm, hid.symm, hopen, hwaits, hunsent⟩
  · exact ⟨rfl, rfl, id, id, id⟩

theorem Later.resolve (calls : List Call) (i : ℕ) :
    Later calls (calls.modify i Call.resolve) :=
  Later.modify calls i fun c => ⟨rfl, rfl, id, by simp [Call.resolve, Call.waits], id⟩

variable {c : Call}

theorem Later.setStage (calls : List Call) {i : ℕ} (hi : calls[i]? = some c)
    {stage : Stage} (hopen : c.open = true) (hunsent : ({ c with stage }).unsent = true →
      c.unsent = true) : Later calls (calls.modify i ({ · with stage })) := by
  refine ⟨List.length_modify .., fun j c' hj => ?_⟩
  obtain ⟨d, hd, rfl⟩ := getElem?_modify_eq_some.mp hj
  refine ⟨d, hd, ?_⟩
  split_ifs with hij
  · subst hij
    cases hi.symm.trans hd
    refine ⟨rfl, rfl, fun _ => hopen, fun hw => ?_, hunsent⟩
    unfold Call.waits at hw ⊢
    rw [Bool.and_eq_true] at hw
    rw [hopen]
    exact hw.2
  · exact ⟨rfl, rfl, id, id, id⟩

theorem Later.back (h : Later calls calls') {i : ℕ}
    (hi : calls[i]? = some c) :
    ∃ c', calls'[i]? = some c' ∧ c'.slot = c.slot ∧ c'.callId = c.callId := by
  have hlt : i < calls'.length := h.length ▸ (List.getElem?_eq_some_iff.mp hi).1
  have hi' : calls'[i]? = some calls'[i] := List.getElem?_eq_getElem hlt
  obtain ⟨d, hd, hslot, hid, -⟩ := h.call i _ hi'
  cases hi.symm.trans hd
  exact ⟨_, hi', hslot.symm, hid.symm⟩

theorem Later.exists_id (h : Later calls calls') {callId : String}
    (hid : ∃ c ∈ calls, c.callId = callId) : ∃ c ∈ calls', c.callId = callId := by
  obtain ⟨c, hc, hid⟩ := hid
  obtain ⟨i, hi⟩ := List.mem_iff_getElem?.mp hc
  obtain ⟨c', hc', -, hid'⟩ := h.back hi
  exact ⟨c', List.mem_of_getElem? hc', hid'.trans hid⟩

theorem Later.ids (h : Later calls calls') :
    calls'.map Call.callId = calls.map Call.callId := by
  refine List.ext_getElem? fun i => ?_
  rw [List.getElem?_map, List.getElem?_map]
  cases hi : calls[i]? with
  | none =>
    have hle : calls'.length ≤ i := h.length ▸ List.getElem?_eq_none_iff.mp hi
    rw [List.getElem?_eq_none hle]
  | some c =>
    obtain ⟨c', hc', -, hid⟩ := h.back hi
    rw [hc']
    exact congrArg some hid

theorem Call.open_of_waits (h : c.waits = true) : c.open = true := by
  unfold Call.waits at h
  exact (Bool.and_eq_true _ _ ▸ h).1

namespace World

variable {w w' : World}

variable {i : ℕ}

theorem waits_iff : w.waits i = true ↔ ∃ c, w.calls[i]? = some c ∧ c.waits = true :=
  Option.any_eq_true _ _

variable {c : Call}

theorem waits_eq_false (hi : w.calls[i]? = some c) (hc : c.waits = false) :
    w.waits i = false := by
  unfold waits
  rw [hi]
  exact hc

variable {s : ℕ}

theorem update_cases {slots : ℕ → Slot} {slot : Slot} (s' : ℕ) :
    s' = s ∧ Function.update slots s slot s' = slot ∨
      s' ≠ s ∧ Function.update slots s slot s' = slots s' := by
  rw [Function.update_apply]
  split_ifs with heq
  · exact .inl ⟨heq, rfl⟩
  · exact .inr ⟨heq, rfl⟩

theorem update_field {α : Type} (f : Slot → α) {slots : ℕ → Slot} {slot : Slot}
    (h : f slot = f (slots s)) (s' : ℕ) : f (Function.update slots s slot s') = f (slots s') := by
  rw [Function.update_apply]
  split_ifs with hs
  · rw [hs, h]
  · rfl

theorem later_resolve (s : ℕ) (callId : String) :
    Later w.calls (w.resolve s callId).calls := by
  unfold resolve
  cases (w.slots s).pending callId with
  | none => exact Later.refl _
  | some i => exact Later.resolve _ _

/-! ## Slots -/

/-- What the slots keep of their calls. -/
structure Client (w : World) : Prop where
  ids : (w.calls.map Call.callId).Nodup
  tracked : ∀ (i : ℕ) (c : Call), w.calls[i]? = some c → c.open = true →
    c.callId ∈ (w.slots c.slot).inFlight
  known : ∀ s, ∀ callId ∈ (w.slots s).inFlight, ∃ c ∈ w.calls, c.slot = s ∧ c.callId = callId
  waiter : ∀ (i : ℕ) (c : Call), w.calls[i]? = some c → c.waits = true → c.stage ≠ .tracked →
    (w.slots c.slot).pending c.callId = some i
  holder : ∀ (s : ℕ) (callId : String) (i : ℕ), (w.slots s).pending callId = some i →
    ∃ c, w.calls[i]? = some c ∧ c.slot = s ∧ c.callId = callId ∧ c.stage ≠ .tracked

theorem Client.call_inj (h : w.Client) {j : ℕ} {d : Call} (hi : w.calls[i]? = some c)
    (hj : w.calls[j]? = some d) (hid : c.callId = d.callId) : i = j := by
  have hi' : (w.calls.map Call.callId)[i]? = some c.callId := by rw [List.getElem?_map, hi]; rfl
  have hj' : (w.calls.map Call.callId)[j]? = some c.callId := by
    rw [List.getElem?_map, hj, hid]
    rfl
  refine (List.getElem?_inj ?_ h.ids).mp (hi'.trans hj'.symm)
  rw [List.length_map]
  exact (List.getElem?_eq_some_iff.mp hi).1

/-- The slots keep what they have of their calls. -/
structure SameTables (w w' : World) : Prop where
  inFlight : ∀ s, (w'.slots s).inFlight = (w.slots s).inFlight
  pending : ∀ s, (w'.slots s).pending = (w.slots s).pending

theorem Client.still (h : w.Client) (hcalls : w'.calls = w.calls) (hs : SameTables w w') :
    w'.Client := by
  refine ⟨?_, ?_, ?_, ?_, ?_⟩
  · rw [hcalls]
    exact h.ids
  · simp only [hcalls, hs.inFlight]
    exact h.tracked
  · simp only [hcalls, hs.inFlight]
    exact h.known
  · simp only [hcalls, hs.pending]
    exact h.waiter
  · simp only [hcalls, hs.pending]
    exact h.holder

theorem calls_resolve (s : ℕ) (callId : String) : (w.resolve s callId).calls =
    ((w.slots s).pending callId).elim w.calls fun i => w.calls.modify i Call.resolve := rfl

theorem slots_resolve (s : ℕ) (callId : String) : (w.resolve s callId).slots =
    Function.update w.slots s
      { w.slots s with pending := Function.update (w.slots s).pending callId none } := rfl

variable {callId : String}

theorem getElem?_resolve {j : ℕ} {c' : Call} :
    (w.resolve s callId).calls[j]? = some c' ↔ ∃ c, w.calls[j]? = some c ∧
      c' = if (w.slots s).pending callId = some j then c.resolve else c := by
  rw [calls_resolve]
  cases (w.slots s).pending callId with
  | none => simp
  | some i =>
    show (w.calls.modify i Call.resolve)[j]? = some c' ↔ _
    rw [getElem?_modify_eq_some]
    simp only [Option.some.injEq]
    exact exists_congr fun c => and_congr_right fun _ => eq_comm

theorem pending_resolve (s s' : ℕ) (callId callId' : String) :
    ((w.resolve s callId).slots s').pending callId' =
      if s' = s ∧ callId' = callId then none else (w.slots s').pending callId' := by
  rw [slots_resolve]
  by_cases hs : s' = s
  · subst hs
    rw [Function.update_self]
    show Function.update _ _ _ callId' = _
    rw [Function.update_apply]
    simp only [true_and]
  · rw [Function.update_of_ne hs, if_neg fun h => hs h.1]

theorem inFlight_resolve (s s' : ℕ) (callId : String) :
    ((w.resolve s callId).slots s').inFlight = (w.slots s').inFlight := by
  rw [slots_resolve]
  exact update_field Slot.inFlight (by rfl) s'

theorem Client.resolve (h : w.Client) (s : ℕ) (callId : String) :
    (w.resolve s callId).Client := by
  refine ⟨?_, fun i c hi ho => ?_, fun s' callId' hmem => ?_, fun i c hi hw hst => ?_,
    fun s' callId' i hi => ?_⟩
  · rw [(later_resolve s callId).ids]
    exact h.ids
  · obtain ⟨d, hd, hslot, hid, hopen, -⟩ := (later_resolve s callId).call i c hi
    rw [inFlight_resolve, ← hslot, ← hid]
    exact h.tracked i d hd (hopen ho)
  · rw [inFlight_resolve] at hmem
    obtain ⟨c, hc, hslot, hid⟩ := h.known s' callId' hmem
    obtain ⟨i, hi⟩ := List.mem_iff_getElem?.mp hc
    obtain ⟨c', hc', hslot', hid'⟩ := (later_resolve s callId).back hi
    exact ⟨c', List.mem_of_getElem? hc', hslot'.trans hslot, hid'.trans hid⟩
  · obtain ⟨d, hd, rfl⟩ := getElem?_resolve.mp hi
    split_ifs at hw hst ⊢ with hpending
    · -- the call that is resolved does not wait
      simp [Call.waits, Call.resolve] at hw
    · have hwaiter := h.waiter i d hd hw hst
      rw [pending_resolve, if_neg ?_]
      · exact hwaiter
      · rintro ⟨rfl, rfl⟩
        exact hpending hwaiter
  · rw [pending_resolve] at hi
    split_ifs at hi with hsame
    obtain ⟨c, hc, hslot, hid, hstage⟩ := h.holder s' callId' i hi
    refine ⟨_, getElem?_resolve.mpr ⟨c, hc, rfl⟩, ?_⟩
    split_ifs
    · exact ⟨hslot, hid, hstage⟩
    · exact ⟨hslot, hid, hstage⟩

theorem Client.setStage (h : w.Client) (hi : w.calls[i]? = some c)
    (hopen : c.open = true) {stage : Stage} (hstage : stage ≠ .tracked)
    (hc : stage ≠ .over → c.stage ≠ .tracked)
    (hunsent : ({ c with stage }).unsent = true → c.unsent = true) :
    (w.setStage i stage).Client := by
  have hlater : Later w.calls (w.setStage i stage).calls :=
    Later.setStage w.calls hi hopen hunsent
  refine ⟨?_, fun j c' hj ho => ?_, fun s callId hmem => ?_, fun j c' hj hw _ => ?_,
    fun s callId j hj => ?_⟩
  · rw [hlater.ids]
    exact h.ids
  · obtain ⟨d, hd, hslot, hid, hopen, -⟩ := hlater.call j c' hj
    rw [← hslot, ← hid]
    exact h.tracked j d hd (hopen ho)
  · obtain ⟨d, hd, hslot, hid⟩ := h.known s callId hmem
    obtain ⟨j, hj⟩ := List.mem_iff_getElem?.mp hd
    obtain ⟨c', hc', hslot', hid'⟩ := hlater.back hj
    exact ⟨c', List.mem_of_getElem? hc', hslot'.trans hslot, hid'.trans hid⟩
  · obtain ⟨d, hd, hslot, hid, -, hwaits, -⟩ := hlater.call j c' hj
    rw [← hslot, ← hid]
    refine h.waiter j d hd (hwaits hw) ?_
    obtain ⟨d', hd', hd''⟩ := getElem?_modify_eq_some.mp hj
    cases hd.symm.trans hd'
    by_cases hij : i = j
    · subst hij
      rw [if_pos rfl] at hd''
      rw [Option.some.inj (hd.symm.trans hi)]
      refine hc ?_
      rintro rfl
      rw [← hd''] at hw
      cases hw
    · rw [if_neg hij] at hd''
      subst hd''
      assumption
  · obtain ⟨d, hd, hslot, hid, hst⟩ := h.holder s callId j hj
    refine ⟨_, getElem?_modify_eq_some.mpr ⟨d, hd, rfl⟩, ?_⟩
    split_ifs
    · exact ⟨hslot, hid, hstage⟩
    · exact ⟨hslot, hid, hst⟩

theorem Client.pending_eq_none (h : w.Client) (hi : w.calls[i]? = some c)
    (hc : c.stage = .tracked) (s : ℕ) : (w.slots s).pending c.callId = none := by
  cases hp : (w.slots s).pending c.callId with
  | none => rfl
  | some j =>
    obtain ⟨d, hd, -, hid, hst⟩ := h.holder s c.callId j hp
    obtain rfl := h.call_inj hi hd hid.symm
    cases hi.symm.trans hd
    exact absurd hc hst

theorem Client.register (h : w.Client) {resolved : Bool}
    (hi : w.calls[i]? = some ⟨s, callId, .tracked, resolved⟩) :
    (((w.resolve s callId).setStage i .registered).setPending s callId i).Client := by
  have hnone := h.pending_eq_none hi rfl s
  have hcalls : (w.resolve s callId).calls = w.calls := by
    rw [calls_resolve, show (w.slots s).pending callId = none from hnone]
    rfl
  have hget : ∀ {j : ℕ} {c' : Call}, ((w.resolve s callId).calls.modify i
      ({ · with stage := .registered }))[j]? = some c' ↔ ∃ c, w.calls[j]? = some c ∧
        (if i = j then { c with stage := .registered } else c) = c' := by
    intro j c'
    rw [hcalls, getElem?_modify_eq_some]
  have hlater : Later w.calls
      (((w.resolve s callId).setStage i .registered).setPending s callId i).calls := by
    show Later w.calls ((w.resolve s callId).calls.modify i _)
    rw [hcalls]
    exact Later.setStage w.calls hi rfl fun _ => rfl
  have hinFlight : ∀ s', ((((w.resolve s callId).setStage i .registered).setPending s callId
      i).slots s').inFlight = (w.slots s').inFlight := by
    intro s'
    exact (update_field Slot.inFlight (by rfl) s').trans (inFlight_resolve s s' callId)
  have hpending : ∀ s' callId', ((((w.resolve s callId).setStage i .registered).setPending s callId
      i).slots s').pending callId' =
        if s' = s ∧ callId' = callId then some i else (w.slots s').pending callId' := by
    intro s' callId'
    show (Function.update (w.resolve s callId).slots s _ s').pending callId' = _
    rw [Function.update_apply]
    have hold := pending_resolve (w := w) s s' callId callId'
    split_ifs with hs hboth hboth
    · show Function.update ((w.resolve s callId).slots s).pending callId (some i) callId' = some i
      rw [hboth.2, Function.update_self]
    · show Function.update ((w.resolve s callId).slots s).pending callId (some i) callId' = _
      rw [Function.update_of_ne fun hid => hboth ⟨hs, hid⟩]
      rw [if_neg hboth, hs] at hold
      rw [hold, hs]
    · exact absurd hboth.1 hs
    · rw [if_neg hboth] at hold
      exact hold
  refine ⟨?_, fun j c' hj ho => ?_, fun s' callId' hmem => ?_, fun j c' hj hw hst => ?_,
    fun s' callId' j hj => ?_⟩
  · rw [hlater.ids]
    exact h.ids
  · obtain ⟨d, hd, hslot, hid, hopen, -⟩ := hlater.call j c' hj
    rw [hinFlight, ← hslot, ← hid]
    exact h.tracked j d hd (hopen ho)
  · rw [hinFlight] at hmem
    obtain ⟨d, hd, hslot, hid⟩ := h.known s' callId' hmem
    obtain ⟨j, hj⟩ := List.mem_iff_getElem?.mp hd
    obtain ⟨c', hc', hslot', hid'⟩ := hlater.back hj
    exact ⟨c', List.mem_of_getElem? hc', hslot'.trans hslot, hid'.trans hid⟩
  · obtain ⟨d, hd, rfl⟩ := hget.mp hj
    rw [hpending]
    split_ifs at hw hst ⊢ with hij hsame hsame
    · rw [hij]
    · subst hij
      cases hi.symm.trans hd
      exact absurd ⟨rfl, rfl⟩ hsame
    · exact absurd (h.call_inj hi hd hsame.2.symm) hij
    · exact h.waiter j d hd hw hst
  · rw [hpending] at hj
    split_ifs at hj with hsame
    · cases hj
      obtain ⟨rfl, rfl⟩ := hsame
      exact ⟨_, hget.mpr ⟨_, hi, rfl⟩, by simp⟩
    · obtain ⟨d, hd, hslot, hid, hst⟩ := h.holder s' callId' j hj
      refine ⟨_, hget.mpr ⟨d, hd, rfl⟩, ?_⟩
      split_ifs
      · exact ⟨hslot, hid, Stage.noConfusion⟩
      · exact ⟨hslot, hid, hst⟩

theorem Client.request (h : w.Client)
    (hnew : ∀ c ∈ w.calls, c.callId ≠ callId) :
    Client
      { w.setSlot s
          { w.slots s with
            inFlight :=
              if callId ∈ (w.slots s).inFlight then (w.slots s).inFlight
              else (w.slots s).inFlight ++ [callId] } with
        calls := w.calls ++ [⟨s, callId, .tracked, false⟩] } := by
  have hmem : ∀ s' x, x ∈ (Function.update w.slots s
      { w.slots s with
        inFlight :=
          if callId ∈ (w.slots s).inFlight then (w.slots s).inFlight
          else (w.slots s).inFlight ++ [callId] } s').inFlight ↔
      x ∈ (w.slots s').inFlight ∨ s' = s ∧ x = callId := by
    intro s' x
    rw [Function.update_apply]
    split_ifs with hs hin
    · grind
    · grind
    · simp [hs]
  have hpending : ∀ s', (Function.update w.slots s
      { w.slots s with
        inFlight :=
          if callId ∈ (w.slots s).inFlight then (w.slots s).inFlight
          else (w.slots s).inFlight ++ [callId] } s').pending = (w.slots s').pending :=
    update_field Slot.pending (by rfl)
  refine ⟨?_, fun i c hi ho => ?_, fun s' callId' hin => ?_, fun i c hi hw hst => ?_,
    fun s' callId' i hi => ?_⟩
  · show (List.map Call.callId (w.calls ++ [⟨s, callId, .tracked, false⟩])).Nodup
    rw [List.map_append]
    refine List.Nodup.append h.ids (List.nodup_singleton _) (List.disjoint_singleton.mpr ?_)
    intro hold
    obtain ⟨c, hc, hid⟩ := List.mem_map.mp hold
    exact hnew c hc hid
  · refine (hmem c.slot c.callId).mpr ?_
    rcases getElem?_snoc_cases hi with hi | ⟨-, rfl⟩
    · exact .inl (h.tracked i c hi ho)
    · exact .inr ⟨rfl, rfl⟩
  · rcases (hmem s' callId').mp hin with hin | ⟨rfl, rfl⟩
    · obtain ⟨c, hc, hslot, hid⟩ := h.known s' callId' hin
      exact ⟨c, List.mem_append_left _ hc, hslot, hid⟩
    · exact ⟨_, List.mem_append_right _ (List.mem_singleton_self _), rfl, rfl⟩
  · rcases getElem?_snoc_cases hi with hi | ⟨-, rfl⟩
    · exact (congrFun (hpending c.slot) _).trans (h.waiter i c hi hw hst)
    · exact absurd rfl hst
  · obtain ⟨c, hc, hrest⟩ := h.holder s' callId' i ((congrFun (hpending s') _).symm.trans hi)
    exact ⟨c, getElem?_snoc_of_some hc, hrest⟩

theorem Client.untrack (h : w.Client)
    (hi : w.calls[i]? = some ⟨s, callId, .published, true⟩) :
    Client
      ((w.setStage i .over).setSlot s
        { w.slots s with
          inFlight := (w.slots s).inFlight.filter fun x => decide (x ≠ callId) }) := by
  have hover : (w.setStage i .over).Client := h.setStage hi rfl Stage.noConfusion
    (fun ho => absurd rfl ho) fun hu => by simp [Call.unsent] at hu
  have hmem : ∀ s' x, x ∈ (Function.update w.slots s
      { w.slots s with
        inFlight := (w.slots s).inFlight.filter fun x => decide (x ≠ callId) } s').inFlight ↔
      x ∈ (w.slots s').inFlight ∧ (s' = s → x ≠ callId) := by
    intro s' x
    rw [Function.update_apply]
    split_ifs with hs
    · grind
    · simp [hs]
  have hpending : ∀ s', (Function.update w.slots s
      { w.slots s with
        inFlight := (w.slots s).inFlight.filter fun x => decide (x ≠ callId) } s').pending =
      (w.slots s').pending := update_field Slot.pending (by rfl)
  refine ⟨hover.ids, fun j c hj ho => (hmem c.slot c.callId).mpr ⟨hover.tracked j c hj ho, ?_⟩,
    fun s' callId' hin => hover.known s' callId' ((hmem s' callId').mp hin).1,
    fun j c hj hw hst => (congrFun (hpending c.slot) _).trans (hover.waiter j c hj hw hst),
    fun s' callId' j hj => hover.holder s' callId' j ((congrFun (hpending s') _).symm.trans hj)⟩
  -- the only call under its id is over
  rintro - hid
  obtain ⟨d, hd, rfl⟩ := getElem?_modify_eq_some.mp hj
  split_ifs at ho hid with hij
  · cases ho
  · exact hij (h.call_inj hi hd hid.symm)

theorem Client.wake (h : w.Client) (i : ℕ) :
    Client { w with calls := w.calls.modify i Call.resolve } := by
  have hlater := Later.resolve w.calls i
  refine ⟨?_, fun j c hj ho => ?_, fun s callId hmem => ?_, fun j c hj hw hst => ?_,
    fun s callId j hj => ?_⟩
  · rw [hlater.ids]
    exact h.ids
  · obtain ⟨d, hd, hslot, hid, hopen, -⟩ := hlater.call j c hj
    rw [← hslot, ← hid]
    exact h.tracked j d hd (hopen ho)
  · obtain ⟨d, hd, hslot, hid⟩ := h.known s callId hmem
    obtain ⟨j, hj⟩ := List.mem_iff_getElem?.mp hd
    obtain ⟨c, hc, hslot', hid'⟩ := hlater.back hj
    exact ⟨c, List.mem_of_getElem? hc, hslot'.trans hslot, hid'.trans hid⟩
  · obtain ⟨d, hd, rfl⟩ := getElem?_modify_eq_some.mp hj
    split_ifs at hw hst ⊢ with hij
    · simp [Call.waits, Call.resolve] at hw
    · exact h.waiter j d hd hw hst
  · obtain ⟨d, hd, hslot, hid, hst⟩ := h.holder s callId j hj
    refine ⟨_, getElem?_modify_eq_some.mpr ⟨d, hd, rfl⟩, ?_⟩
    split_ifs
    · exact ⟨hslot, hid, hst⟩
    · exact ⟨hslot, hid, hst⟩

theorem SameTables.setPhase (w : World) (s : ℕ) (phase : Phase) :
    SameTables w (w.setPhase s phase) :=
  ⟨update_field Slot.inFlight (by rfl), update_field Slot.pending (by rfl)⟩

theorem SameTables.setVanished (w : World) (s : ℕ) (callId : String) (since : Option ℕ) :
    SameTables w (w.setVanished s callId since) :=
  ⟨update_field Slot.inFlight (by rfl), update_field Slot.pending (by rfl)⟩

theorem Client.abandon (h : w.Client) (s : ℕ) (callId : String) (failed : Option (List ℕ)) :
    (w.abandon s callId failed).Client :=
  (h.resolve s callId).still rfl ⟨fun _ => rfl, fun _ => rfl⟩

theorem Client.judgeOne (h : w.Client) (s : ℕ) (pong : Pong) (now : ℕ) (callId : String) :
    (w.judgeOne s pong now callId).Client := by
  unfold World.judgeOne
  split_ifs
  · exact h.still rfl (.setVanished w s callId none)
  · split
    · exact h.still rfl (.setVanished w s callId (some now))
    · split_ifs
      · exact (h.abandon s callId none).still rfl (.setVanished _ s callId none)
      · exact h

theorem Client.init : init.Client where
  ids := List.nodup_nil
  tracked i c hi := by simp [World.init] at hi
  known s callId hmem := absurd hmem List.not_mem_nil
  waiter i c hi := by simp [World.init] at hi
  holder s callId i hi := by cases hi

theorem Client.step (h : w.Client) {l : Label} (hg : w.careful l = true)
    (hs : w.step? l = some w') : w'.Client := by
  have hsame : SameTables w w := ⟨fun _ => rfl, fun _ => rfl⟩
  cases Stepped.of_step? hs with
  | request s callId =>
    unfold careful at hg
    simp only [Bool.and_eq_true, List.all_eq_true, decide_eq_true_eq] at hg
    exact h.request hg.1
  | register hi => exact h.register hi
  | publish hi =>
    have hset : (w.setStage _ .published).Client := h.setStage hi rfl Stage.noConfusion
      (fun _ => Stage.noConfusion) fun _ => rfl
    exact hset.still rfl ⟨fun _ => rfl, fun _ => rfl⟩
  | @publishFailed i s callId _ hi =>
    obtain ⟨c, hc⟩ : ∃ c, (w.resolve s callId).calls[i]? = some c ∧ c.stage = .registered := by
      refine ⟨_, getElem?_resolve.mpr ⟨_, hi, rfl⟩, ?_⟩
      split_ifs <;> rfl
    have hset : ((w.resolve s callId).setStage i .published).Client :=
      (h.resolve s callId).setStage hc.1 (by simp [Call.open, hc.2]) Stage.noConfusion
        (fun _ => by rw [hc.2]; exact Stage.noConfusion) fun _ => by simp [Call.unsent, hc.2]
    exact hset.wake i
  | untrack hi => exact h.untrack hi
  | drop hopen =>
    obtain ⟨c, hi, hc⟩ := (Option.any_eq_true _ _).mp hopen
    exact h.setStage hi hc Stage.noConfusion (fun ho => absurd rfl ho)
      fun hu => by simp [Call.unsent] at hu
  | refuse | spawn | abort | loseInbound | insertHandle | reply | finish | elapse | pong =>
    exact h.still rfl ⟨fun _ => rfl, fun _ => rfl⟩
  | deliver s k callId => exact h.resolve s callId
  | idle | ping | cancel | endRound | gaveUp =>
    exact h.still rfl ⟨update_field Slot.inFlight (by rfl), update_field Slot.pending (by rfl)⟩
  | accept | cancelled | fail | forget => exact h.still rfl (.setPhase w _ _)
  | judge => exact (h.judgeOne _ _ _ _).still rfl (.setPhase _ _ _)
  | giveUp => exact (h.abandon _ _ _).still rfl (.setPhase _ _ _)

end World

end Horsie.Reconciler

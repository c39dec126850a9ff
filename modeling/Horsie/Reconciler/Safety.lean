import Horsie.Reconciler.Reports

/-!
# Reconcilers give up what is lost, and nothing else

A call of a slot is missing for at most four rounds, and a ping that fails ends the calls that were
outstanding, as long as each call has an id of its own, a pong answers the reconciler's own ping,
and the runtime is used by one slot (`reconciliation_safe`). Two slots cancel each other's calls.
-/

namespace Horsie.Reconciler

open Horsie.Lib

namespace World

variable {w w' : World}

/-! ## Calls that are given up -/

variable {callId : String}

theorem awaited_iff : w.awaited callId = true ↔
    ∀ c ∈ w.calls, c.callId = callId → c.stage ≠ .tracked := by
  unfold awaited
  simp only [List.all_eq_true, decide_eq_true_eq, or_iff_not_imp_left, not_not]

variable {s : ℕ}

theorem Client.ended (h : w.Client) (hg : w.awaited callId = true)
    {i : ℕ} {c : Call} (hi : (w.resolve s callId).calls[i]? = some c) (hs : c.slot = s)
    (hid : c.callId = callId) : c.waits = false := by
  obtain ⟨d, hd, hc⟩ := getElem?_resolve.mp hi
  by_contra hw
  rw [Bool.not_eq_false] at hw
  split_ifs at hc with hpending
  · rw [hc] at hw
    simp [Call.waits, Call.resolve] at hw
  · subst hc
    refine hpending ?_
    rw [← hs, ← hid]
    exact h.waiter i c hd hw (awaited_iff.mp hg c (List.mem_of_getElem? hd) hid)

/-- What comes of the calls that are given up, and of those that are cancelled. -/
structure Endings (w : World) : Prop where
  attended : ∀ (i : ℕ) (c : Call), w.calls[i]? = some c → c.waits = true →
    (w.slots c.slot).phase ≠ .stopped
  giving : ∀ s asked todo, (w.slots s).phase = .failing asked todo →
    (∀ callId ∈ todo, callId ∈ asked.outstanding) ∧ ∀ i ∈ asked.calls, ∀ c,
      w.calls[i]? = some c → c.waits = true → c.callId ∈ todo
  ended : ∀ asked ∈ w.failures, ∀ i ∈ asked, ∃ c, w.calls[i]? = some c ∧ c.waits = false
  spared : ∀ e ∈ w.struck, e.failed = none → ¬ (e.executing = true ∧ e.waiting = true)
  others : ∀ e ∈ w.struck, ∀ asked, e.failed = some asked → e.call ∈ asked

structure EndingsStill (w w' : World) : Prop where
  calls : Later w.calls w'.calls
  stopped : ∀ s, (w'.slots s).phase = .stopped → (w.slots s).phase = .stopped
  failing : ∀ s asked todo, (w'.slots s).phase = .failing asked todo →
    (w.slots s).phase = .failing asked todo
  failures : w'.failures = w.failures
  struck : ∀ e ∈ w'.struck, e ∈ w.struck ∨
    (e.failed = none → ¬ (e.executing = true ∧ e.waiting = true)) ∧
      ∀ asked, e.failed = some asked → e.call ∈ asked

theorem Endings.still (h : w.Endings) (hs : EndingsStill w w') : w'.Endings := by
  refine ⟨fun i c' hi hw hstop => ?_, fun s asked todo hf => ?_, ?_, fun e he => ?_,
    fun e he => ?_⟩
  · obtain ⟨c, hc, hslot, -, -, hwaits, -⟩ := hs.calls.call i c' hi
    exact h.attended i c hc (hwaits hw) (hs.stopped _ (hslot ▸ hstop))
  · obtain ⟨hsub, hgiving⟩ := h.giving s asked todo (hs.failing s asked todo hf)
    refine ⟨hsub, fun i hi c' hci hw => ?_⟩
    obtain ⟨c, hc, -, hid, -, hwaits, -⟩ := hs.calls.call i c' hci
    exact hid ▸ hgiving i hi c hc (hwaits hw)
  · rw [hs.failures]
    intro asked hasked i hi
    obtain ⟨c, hc, hno⟩ := h.ended asked hasked i hi
    obtain ⟨c', hc', -⟩ := hs.calls.back hc
    refine ⟨c', hc', ?_⟩
    obtain ⟨d, hd, -, -, -, hwaits, -⟩ := hs.calls.call i c' hc'
    cases hc.symm.trans hd
    by_contra hw
    rw [Bool.not_eq_false] at hw
    rw [hwaits hw] at hno
    cases hno
  · rcases hs.struck e he with hold | ⟨hspared, -⟩
    · exact h.spared e hold
    · exact hspared
  · rcases hs.struck e he with hold | ⟨-, hothers⟩
    · exact h.others e hold
    · exact hothers

theorem Endings.slots (h : w.Endings) (hcalls : Later w.calls w'.calls)
    (hphase : ∀ s, (w'.slots s).phase = (w.slots s).phase) (hfailures : w'.failures = w.failures)
    (hstruck : w'.struck = w.struck) : w'.Endings :=
  h.still ⟨hcalls, fun s hp => (hphase s) ▸ hp, fun s _ _ hp => (hphase s) ▸ hp, hfailures,
    fun _ he => .inl (hstruck ▸ he)⟩

variable {slot : Slot}

theorem Endings.setSlot (h : w.Endings) (hstop : slot.phase ≠ .stopped)
    (hfail : ∀ asked todo, slot.phase ≠ .failing asked todo) : (w.setSlot s slot).Endings := by
  have hslot : ∀ s', ((w.setSlot s slot).slots s').phase = slot.phase ∨
      ((w.setSlot s slot).slots s').phase = (w.slots s').phase := fun s' =>
    (update_cases s').imp (fun h => congrArg Slot.phase h.2) fun h => congrArg Slot.phase h.2
  refine h.still ⟨.refl _, fun s' hp => ?_, fun s' asked todo hp => ?_, rfl, fun _ he => .inl he⟩
  · rcases hslot s' with heq | heq
    · exact absurd (heq ▸ hp) hstop
    · exact heq ▸ hp
  · rcases hslot s' with heq | heq
    · exact absurd (heq ▸ hp) (hfail asked todo)
    · exact heq ▸ hp

variable {slots : ℕ → Slot}

theorem Endings.request (h : w.Endings)
    (hphase : ∀ s, (slots s).phase = (w.slots s).phase) (hs : (w.slots s).phase ≠ .stopped)
    (hasks : w.Asks) :
    Endings { w with calls := w.calls ++ [⟨s, callId, .tracked, false⟩], slots := slots } := by
  refine ⟨fun i d hi hw => ?_, fun s' asked todo hf => ?_, fun asked hasked i hi => ?_, h.spared,
    h.others⟩
  · show (slots d.slot).phase ≠ .stopped
    rw [hphase]
    rcases getElem?_snoc_cases hi with hi | ⟨-, rfl⟩
    · exact h.attended i d hi hw
    · exact hs
  · have hf' : (w.slots s').phase = .failing asked todo := (hphase s').symm.trans hf
    obtain ⟨hsub, hgiving⟩ := h.giving s' asked todo hf'
    refine ⟨hsub, fun i hi d hd hw => ?_⟩
    rcases getElem?_snoc_cases hd with hd | ⟨rfl, -⟩
    · exact hgiving i hi d hd hw
    · obtain ⟨c, hc, -⟩ := hasks.calls s' asked (by rw [hf']; rfl) _ hi
      exact absurd (List.getElem?_eq_some_iff.mp hc).1 (Nat.lt_irrefl _)
  · obtain ⟨c, hc, hno⟩ := h.ended asked hasked i hi
    exact ⟨c, getElem?_snoc_of_some hc, hno⟩

variable {pong : Pong}

theorem Endings.abandon (h : w.Endings) (hr : w.Runtime) (hc : w.Client) (hp : w.Reports)
    (hpong : pong ∈ w.pongs)
    (hmissing : callId ∉ pong.executing) (harrived : callId ∉ w.arrivals.drop pong.arrivals)
    (hspawned : ∀ x, w.spawned = some x → x.1 ≠ callId) : (w.abandon s callId none).Endings := by
  refine h.still ⟨later_resolve s callId, fun s' hs => ?_, fun s' _ _ hs => ?_, rfl,
    fun e he => ?_⟩
  · exact (SameRounds.abandon w s callId none).phase s' ▸ hs
  · exact (SameRounds.abandon w s callId none).phase s' ▸ hs
  · rcases List.mem_append.mp he with he | he
    · exact .inl he
    · obtain ⟨i, hi, rfl⟩ := List.mem_map.mp he
      rw [Option.mem_toList] at hi
      refine .inr ⟨fun _ ⟨hex, _⟩ => ?_, by rintro asked ⟨⟩⟩
      -- a task that the pong does not list was registered later, or is not registered
      obtain ⟨callId', hrun⟩ := executes_iff.mp hex
      obtain ⟨d, hd, hid⟩ := hr.sender _ (List.mem_append_right _ hrun)
      obtain ⟨d', hd', -, hid', -⟩ := hc.holder s callId i hi
      cases hd.symm.trans hd'
      obtain rfl : callId' = callId := hid.symm.trans hid'
      have hhandle := (hr.listed (callId', i)).mpr ⟨hrun, fun hs => hspawned _ hs rfl⟩
      rcases hp.registered pong hpong _ hhandle with hin | hin
      · exact hmissing hin
      · exact harrived hin

theorem Endings.abort (h : w.Endings) (hr : w.Runtime) (hp : w.Reports) {k : ℕ}
    (hk : w.inbound[k]? = some (.cancel callId)) :
    (World.abort { w with inbound := w.inbound.eraseIdx k } callId).Endings := by
  refine h.still ⟨.refl _, fun _ hs => hs, fun _ _ _ hs => hs, rfl, fun e he => ?_⟩
  rcases List.mem_append.mp he with he | he
  · exact .inl he
  · obtain ⟨task, ht, rfl⟩ := List.mem_map.mp he
    refine .inr ⟨fun _ ⟨_, hw⟩ => ?_, by rintro asked ⟨⟩⟩
    have hhandle : (callId, task.call) ∈ w.handles :=
      of_decide_eq_true (List.mem_filter.mp ht).2
    obtain ⟨c, hc, hid⟩ := hr.sender _ (List.mem_append_right _ ((hr.listed _).mp hhandle).1)
    have hover := (hp.cancelled callId (List.mem_of_getElem? hk)).2 c (List.mem_of_getElem? hc) hid
    obtain ⟨d, hd, hwaits⟩ := waits_iff.mp (show w.waits task.call = true from hw)
    cases hc.symm.trans hd
    rw [Call.open_of_waits hwaits] at hover
    cases hover

variable {asked : Asked} {todo : List String}

theorem Endings.giveUp (h : w.Endings) (ha : w.Asks) (hc : w.Client)
    (hphase : (w.slots s).phase = .failing asked (callId :: todo))
    (hg : w.awaited callId = true) :
    ((w.abandon s callId (some asked.calls)).setPhase s (.failing asked todo)).Endings := by
  have hasked : (w.slots s).phase.asked? = some asked := by rw [hphase]; rfl
  obtain ⟨hsub, hgiving⟩ := h.giving s asked _ hphase
  have hsame := (SameRounds.abandon w s callId (some asked.calls)).phase
  have hbase : (w.abandon s callId (some asked.calls)).Endings := by
    refine h.still ⟨later_resolve s callId, fun s' hs => hsame s' ▸ hs,
      fun s' _ _ hs => hsame s' ▸ hs, rfl, fun e he => ?_⟩
    rcases List.mem_append.mp he with he | he
    · exact .inl he
    · obtain ⟨i, hi, rfl⟩ := List.mem_map.mp he
      rw [Option.mem_toList] at hi
      refine .inr ⟨by rintro ⟨⟩, fun asked' hasked' => ?_⟩
      cases hasked'
      obtain ⟨c, hci, -, hid, -⟩ := hc.holder s callId i hi
      exact ha.mem_calls hc hasked hci (hid ▸ hsub callId List.mem_cons_self)
  refine ⟨fun i c hi hw => ?_, fun s' asked' todo' hf => ?_, hbase.ended, hbase.spared,
    hbase.others⟩
  · rw [phase_setPhase]
    split_ifs
    · exact Phase.noConfusion
    · exact hbase.attended i c hi hw
  · rw [phase_setPhase] at hf
    split_ifs at hf with heq
    · cases hf
      refine ⟨fun id hid => hsub id (List.mem_cons_of_mem _ hid), fun i hi c hci hw => ?_⟩
      obtain ⟨d, hd, hslot, hid, -, hwaits, -⟩ := (later_resolve s callId).call i c hci
      obtain ⟨d', hd', hs', -⟩ := ha.calls s asked hasked i hi
      cases hd.symm.trans hd'
      rcases List.mem_cons.mp (hgiving i hi d hd (hwaits hw)) with heq' | hmem
      · rw [hc.ended hg hci (hslot.symm.trans hs') (hid.symm.trans heq')] at hw
        cases hw
      · exact hid ▸ hmem
    · exact hbase.giving s' asked' todo' hf

variable {now : ℕ}

theorem Endings.judgeOne (h : w.Endings) (hp : w.Reports) (hr : w.Runtime) (hc : w.Client)
    (hphase : (w.slots s).phase = .judging asked pong now (callId :: todo))
    (hg : w.careful (.judge s) = true) : (w.judgeOne s pong now callId).Endings := by
  have hheld := (hp.held s pong (by rw [hphase]; rfl)).1
  unfold careful at hg
  simp only [hphase, Bool.or_eq_true, decide_eq_true_eq] at hg
  unfold World.judgeOne
  split_ifs with hin
  · exact h.slots (.refl _) (SameRounds.setVanished w s callId none).phase rfl rfl
  · cases hv : (w.slots s).vanished callId with
    | none => exact h.slots (.refl _) (SameRounds.setVanished w s callId (some now)).phase rfl rfl
    | some since =>
      dsimp only
      split_ifs with hgrace
      · have hrest := hg.resolve_left hin
        rw [hv, Option.all_some, Bool.or_eq_true, decide_eq_true_eq] at hrest
        have hguard := hrest.resolve_left (Nat.not_lt.mpr hgrace)
        simp only [Bool.and_eq_true, decide_eq_true_eq, Option.all_eq_true] at hguard
        exact (h.abandon hr hc hp hheld hin hguard.1.2 hguard.2).slots (.refl _)
          (SameRounds.setVanished _ s callId none).phase rfl rfl
      · exact h

theorem Endings.init : init.Endings where
  attended i c hi := by simp [World.init] at hi
  giving s asked todo hf := by cases hf
  ended asked hasked := absurd hasked List.not_mem_nil
  spared e he := absurd he List.not_mem_nil
  others e he := absurd he List.not_mem_nil

theorem Endings.quiet (h : w.Endings) (hq : Quiet w w') : w'.Endings :=
  h.slots hq.calls hq.rounds.phase hq.failures hq.struck

theorem Endings.fail (h : w.Endings) (ha : w.Asks)
    (hasked : (w.slots s).phase.asked? = some asked) :
    (w.setPhase s (.failing asked asked.outstanding)).Endings := by
  refine ⟨fun i c hi hw => ?_, fun s' asked' todo' hf => ?_, h.ended, h.spared, h.others⟩
  · rw [phase_setPhase]
    split_ifs
    · exact Phase.noConfusion
    · exact h.attended i c hi hw
  · rw [phase_setPhase] at hf
    split_ifs at hf with heq
    · cases hf
      refine ⟨fun _ hid => hid, fun i hi c hci _ => ?_⟩
      obtain ⟨d, hd, -, hid⟩ := ha.calls s asked hasked i hi
      cases hd.symm.trans hci
      exact hid
    · exact h.giving s' asked' todo' hf

variable {l : Label}

theorem Endings.step (h : w.Endings) (hp : w.Reports) (ha : w.Asks) (hr : w.Runtime)
    (hc : w.Client) (hg : w.careful l = true) (hs : w.step? l = some w') :
    w'.Endings := by
  have hquiet := (Stepped.of_step? hs).quiet
  cases Stepped.of_step? hs with
  | request s callId =>
    unfold careful at hg
    simp only [Bool.and_eq_true, decide_eq_true_eq] at hg
    exact h.request (update_field Slot.phase (by rfl)) hg.2 ha
  | register | publish | publishFailed | untrack | drop | loseInbound | reply | finish | deliver
  | elapse => exact h.quiet (hquiet trivial)
  | @refuse k callId => exact h.quiet (.refuse w k callId)
  | abort hk => exact h.abort hr hp hk
  | spawn | insertHandle | pong => exact h.slots (.refl _) (fun _ => rfl) rfl rfl
  | idle | accept | cancelled => exact h.setSlot Phase.noConfusion fun _ _ => Phase.noConfusion
  | ping | cancel | endRound =>
    exact (h.setSlot Phase.noConfusion fun _ _ => Phase.noConfusion).slots (.refl _) (fun _ => rfl)
      rfl rfl
  | judge hphase =>
    exact (h.judgeOne hp hr hc hphase hg).setSlot Phase.noConfusion fun _ _ => Phase.noConfusion
  | fail hphase => exact h.fail ha (by rw [hphase]; rfl)
  | giveUp hphase =>
    unfold careful at hg
    simp only [hphase] at hg
    exact h.giveUp ha hc hphase hg
  | @gaveUp s asked hphase =>
    have hslot : (w.setSlot s
        { w.slots s with phase := .sleeping w.clock, vanished := fun _ => none }).Endings :=
      h.setSlot Phase.noConfusion fun _ _ => Phase.noConfusion
    refine ⟨hslot.attended, hslot.giving, fun asked' hmem i hi => ?_, hslot.spared, hslot.others⟩
    rcases List.mem_append.mp hmem with hmem | hmem
    · exact h.ended asked' hmem i hi
    · obtain rfl := List.mem_singleton.mp hmem
      obtain ⟨c, hci, -⟩ := ha.calls s asked (by rw [hphase]; rfl) i hi
      refine ⟨c, hci, ?_⟩
      by_contra hw
      rw [Bool.not_eq_false] at hw
      exact absurd ((h.giving s asked [] hphase).2 i hi c hci hw) List.not_mem_nil
  | forget s =>
    unfold careful at hg
    simp only [List.all_eq_true, Bool.or_eq_true, decide_eq_true_eq, Bool.not_eq_true'] at hg
    refine ⟨fun i c hi hw => ?_, fun s' asked todo hf => ?_, h.ended, h.spared, h.others⟩
    · rw [phase_setPhase]
      split_ifs with heq
      · rcases hg c (List.mem_of_getElem? hi) with hne | hover
        · exact absurd heq hne
        · rw [Call.open_of_waits hw] at hover
          cases hover
      · exact h.attended i c hi hw
    · rw [phase_setPhase] at hf
      split_ifs at hf
      exact h.giving s' asked todo hf

/-! ## Rounds that a call is missing in -/

/-- A call that was outstanding in `n` rounds is missing since the first of them but one, and each
round was later than the one before. -/
def Missed (n : ℕ) (vanished : Option ℕ) (latest : ℕ) : Prop :=
  2 ≤ n → n ≤ maxRounds ∧ ∃ since, vanished = some since ∧ since + pingInterval * (n - 2) ≤ latest

theorem Missed.of_lt {n : ℕ} {vanished : Option ℕ} {latest : ℕ} (h : n < 2) :
    Missed n vanished latest := fun hn => absurd hn (Nat.not_le.mpr h)

theorem Missed.succ {n since latest : ℕ} (h : Missed n (some since) latest)
    (hsince : since ≤ now) (hnow : latest + pingInterval ≤ now)
    (hgrace : now - since < vanishedGrace) : Missed (n + 1) (some since) now := by
  intro hn
  unfold maxRounds pingInterval vanishedGrace at *
  by_cases htwo : 2 ≤ n
  · obtain ⟨-, since', hv, hle⟩ := h htwo
    cases hv
    unfold pingInterval at hle
    exact ⟨by omega, since, rfl, by omega⟩
  · exact ⟨by omega, since, rfl, by omega⟩

/-- How long calls are missing, and how long the rounds are apart. -/
structure Patience (w : World) : Prop where
  past : ∀ s, (w.slots s).judgedAt ≤ w.clock
  sleeping : ∀ s since, (w.slots s).phase = .sleeping since → (w.slots s).judgedAt ≤ since
  apart : ∀ s asked, (w.slots s).phase.asked? = some asked →
    (w.slots s).judgedAt + pingInterval ≤ w.clock
  now : ∀ s now, (w.slots s).phase.now? = some now →
    (w.slots s).judgedAt + pingInterval ≤ now ∧ now ≤ w.clock
  missing : ∀ s, (w.slots s).phase ≠ .stopped → ∀ callId since,
    (w.slots s).vanished callId = some since →
      since ≤ (w.slots s).phase.now?.getD (w.slots s).judgedAt
  waiting : ∀ (i : ℕ) (c : Call), w.calls[i]? = some c → c.waits = true →
    Missed (w.rounds i) ((w.slots c.slot).vanished c.callId) (w.slots c.slot).judgedAt
  judged : ∀ (i : ℕ) (c : Call) asked pong now todo, w.calls[i]? = some c → c.waits = true →
    (w.slots c.slot).phase = .judging asked pong now todo → i ∈ asked.calls →
      c.callId ∉ todo → Missed (w.rounds i + 1) ((w.slots c.slot).vanished c.callId) now

structure PatientSlot (clock : ℕ) (slot : Slot) : Prop where
  past : slot.judgedAt ≤ clock
  sleeping : ∀ since, slot.phase = .sleeping since → slot.judgedAt ≤ since
  apart : ∀ asked, slot.phase.asked? = some asked → slot.judgedAt + pingInterval ≤ clock
  now : ∀ now, slot.phase.now? = some now → slot.judgedAt + pingInterval ≤ now ∧ now ≤ clock
  missing : slot.phase ≠ .stopped → ∀ callId since, slot.vanished callId = some since →
    since ≤ slot.phase.now?.getD slot.judgedAt

theorem Patience.patient (h : w.Patience) (s : ℕ) : PatientSlot w.clock (w.slots s) :=
  ⟨h.past s, h.sleeping s, h.apart s, h.now s, h.missing s⟩

theorem Patience.of_slots (hslots : ∀ s, PatientSlot w.clock (w.slots s))
    (hwaiting : ∀ (i : ℕ) (c : Call), w.calls[i]? = some c → c.waits = true →
      Missed (w.rounds i) ((w.slots c.slot).vanished c.callId) (w.slots c.slot).judgedAt)
    (hjudged : ∀ (i : ℕ) (c : Call) asked pong now todo, w.calls[i]? = some c → c.waits = true →
      (w.slots c.slot).phase = .judging asked pong now todo → i ∈ asked.calls →
        c.callId ∉ todo → Missed (w.rounds i + 1) ((w.slots c.slot).vanished c.callId) now) :
    w.Patience :=
  ⟨fun s => (hslots s).past, fun s => (hslots s).sleeping, fun s => (hslots s).apart,
    fun s => (hslots s).now, fun s => (hslots s).missing, hwaiting, hjudged⟩

theorem PatientSlot.update {clock : ℕ} (h : ∀ s, PatientSlot clock (slots s))
    (hslot : PatientSlot clock slot) (s s' : ℕ) :
    PatientSlot clock (Function.update slots s slot s') := by
  rcases @update_cases s slots slot s' with ⟨-, heq⟩ | ⟨-, heq⟩
  · rwa [heq]
  · rw [heq]
    exact h s'

structure PatienceStill (w w' : World) : Prop where
  calls : Later w.calls w'.calls
  clock : w.clock ≤ w'.clock
  rounds : ∀ i, w'.rounds i = w.rounds i ∨ w'.rounds i = 0
  phase : ∀ s, (w'.slots s).phase = (w.slots s).phase
  vanished : ∀ s, (w'.slots s).vanished = (w.slots s).vanished
  judgedAt : ∀ s, (w'.slots s).judgedAt = (w.slots s).judgedAt

theorem Patience.still (h : w.Patience) (hs : PatienceStill w w') : w'.Patience := by
  refine ⟨fun s => ?_, fun s since hp => ?_, fun s asked hp => ?_, fun s now hp => ?_,
    fun s hstop callId since hv => ?_, fun i c' hi hw => ?_,
    fun i c' asked pong now todo hi hw hp hmem hno => ?_⟩
  · rw [hs.judgedAt]
    exact Nat.le_trans (h.past s) hs.clock
  · rw [hs.phase] at hp
    rw [hs.judgedAt]
    exact h.sleeping s since hp
  · rw [hs.phase] at hp
    rw [hs.judgedAt]
    exact Nat.le_trans (h.apart s asked hp) hs.clock
  · rw [hs.phase] at hp
    rw [hs.judgedAt]
    obtain ⟨happart, hnow⟩ := h.now s now hp
    exact ⟨happart, Nat.le_trans hnow hs.clock⟩
  · rw [hs.phase] at hstop ⊢
    rw [hs.vanished] at hv
    rw [hs.judgedAt]
    exact h.missing s hstop callId since hv
  · obtain ⟨c, hc, hslot, hid, -, hwaits, -⟩ := hs.calls.call i c' hi
    rw [hs.vanished, hs.judgedAt, ← hslot, ← hid]
    rcases hs.rounds i with heq | hzero
    · rw [heq]
      exact h.waiting i c hc (hwaits hw)
    · rw [hzero]
      exact .of_lt (by omega)
  · obtain ⟨c, hc, hslot, hid, -, hwaits, -⟩ := hs.calls.call i c' hi
    rw [hs.phase, ← hslot] at hp
    rw [hs.vanished, ← hslot, ← hid]
    rcases hs.rounds i with heq | hzero
    · rw [heq]
      exact h.judged i c asked pong now todo hc (hwaits hw) hp hmem (hid ▸ hno)
    · rw [hzero]
      exact .of_lt (by omega)

theorem Patience.calls (h : w.Patience) (hcalls : Later w.calls w'.calls)
    (hclock : w'.clock = w.clock) (hrounds : w'.rounds = w.rounds)
    (hslots : w'.slots = w.slots) : w'.Patience :=
  h.still ⟨hcalls, Nat.le_of_eq hclock.symm, fun _ => .inl (by rw [hrounds]),
    fun _ => by rw [hslots], fun _ => by rw [hslots], fun _ => by rw [hslots]⟩

theorem Patience.request (h : w.Patience) (ha : w.Asks) (c : Call)
    (hphase : ∀ s, (slots s).phase = (w.slots s).phase)
    (hvanished : ∀ s, (slots s).vanished = (w.slots s).vanished)
    (hjudgedAt : ∀ s, (slots s).judgedAt = (w.slots s).judgedAt) :
    Patience { w with calls := w.calls ++ [c], slots := slots } := by
  have hbase : Patience { w with slots := slots } :=
    h.still ⟨.refl _, Nat.le_refl _, fun _ => .inl rfl, hphase, hvanished, hjudgedAt⟩
  have hget : ∀ {i : ℕ} {d : Call}, (w.calls ++ [c])[i]? = some d →
      w.calls[i]? = some d ∨ w.rounds i = 0 := by
    intro i d hi
    rcases getElem?_snoc_cases hi with hi | ⟨rfl, -⟩
    · exact .inl hi
    · exact .inr (ha.new _ (Nat.le_refl _))
  refine ⟨hbase.past, hbase.sleeping, hbase.apart, hbase.now, hbase.missing, fun i d hi hw => ?_,
    fun i d asked pong now todo hi hw hp hmem hno => ?_⟩
  · rcases hget hi with hi | hzero
    · exact hbase.waiting i d hi hw
    · exact .of_lt (show w.rounds i < 2 by omega)
  · rcases hget hi with hi | hzero
    · exact hbase.judged i d asked pong now todo hi hw hp hmem hno
    · exact .of_lt (show w.rounds i + 1 < 2 by omega)

theorem Patience.setSlot (h : w.Patience)
    (hjudgedAt : slot.judgedAt = (w.slots s).judgedAt)
    (hvanished : slot.vanished = (w.slots s).vanished) (hslot : PatientSlot w.clock slot)
    (hjudged : ∀ (i : ℕ) (c : Call) asked pong now todo, w.calls[i]? = some c →
      c.waits = true → c.slot = s → slot.phase = .judging asked pong now todo →
        i ∈ asked.calls → c.callId ∉ todo →
          Missed (w.rounds i + 1) ((w.slots s).vanished c.callId) now) :
    (w.setSlot s slot).Patience := by
  have hcases : ∀ s', s' = s ∧ (w.setSlot s slot).slots s' = slot ∨
      s' ≠ s ∧ (w.setSlot s slot).slots s' = w.slots s' := update_cases
  refine .of_slots (PatientSlot.update h.patient hslot s) (fun i c hi hw => ?_)
    fun i c asked pong now todo hi hw hp hmem hno => ?_
  · have hold := h.waiting i c hi hw
    rcases hcases c.slot with ⟨hs, heq⟩ | ⟨-, heq⟩
    · rw [heq, hvanished, hjudgedAt, ← hs]
      exact hold
    · rw [heq]
      exact hold
  · rcases hcases c.slot with ⟨hs, heq⟩ | ⟨-, heq⟩
    · rw [heq] at hp ⊢
      rw [hvanished]
      exact hjudged i c asked pong now todo hi hw hs hp hmem hno
    · rw [heq] at hp ⊢
      exact h.judged i c asked pong now todo hi hw hp hmem hno

def judgedSince (pong : Pong) (now : ℕ) (callId : String) (vanished : Option ℕ) : Option ℕ :=
  if callId ∈ pong.executing then none
  else
    match vanished with
    | none => some now
    | some since => if vanishedGrace ≤ now - since then none else some since

theorem vanished_setVanished (s s' : ℕ) (callId callId' : String) (since : Option ℕ) :
    ((w.setVanished s callId since).slots s').vanished callId' =
      if s' = s ∧ callId' = callId then since else (w.slots s').vanished callId' := by
  show (Function.update w.slots s _ s').vanished callId' = _
  rw [Function.update_apply]
  by_cases hs : s' = s
  · subst hs
    rw [if_pos rfl]
    show Function.update (w.slots s').vanished callId since callId' = _
    rw [Function.update_apply]
    simp only [true_and]
  · rw [if_neg hs, if_neg fun h => hs h.1]

theorem vanished_judgeOne (s s' : ℕ) (pong : Pong) (now : ℕ) (callId callId' : String) :
    ((w.judgeOne s pong now callId).slots s').vanished callId' =
      if s' = s ∧ callId' = callId then judgedSince pong now callId ((w.slots s).vanished callId)
      else (w.slots s').vanished callId' := by
  unfold World.judgeOne judgedSince
  split_ifs with hin hsame hsame
  · rw [vanished_setVanished, if_pos hsame]
  · rw [vanished_setVanished, if_neg hsame]
  · obtain ⟨rfl, rfl⟩ := hsame
    cases hv : (w.slots s').vanished callId' with
    | none =>
      rw [vanished_setVanished, if_pos ⟨rfl, rfl⟩]
    | some since =>
      dsimp only
      split_ifs
      · rw [vanished_setVanished, if_pos ⟨rfl, rfl⟩]
      · exact hv
  · cases hv : (w.slots s).vanished callId with
    | none =>
      rw [vanished_setVanished, if_neg hsame]
    | some since =>
      dsimp only
      split_ifs
      · rw [vanished_setVanished, if_neg hsame]
        exact congrFun (update_field Slot.vanished (by rfl) s') callId'
      · rfl

theorem calls_judgeOne {since : ℕ}
    (hin : callId ∉ pong.executing) (hv : (w.slots s).vanished callId = some since)
    (hgrace : vanishedGrace ≤ now - since) :
    (w.judgeOne s pong now callId).calls = (w.resolve s callId).calls := by
  unfold World.judgeOne
  rw [if_neg hin, hv]
  dsimp only
  rw [if_pos hgrace]
  rfl

/-- A call that waits after it was judged was executed in this round, or is missing for less than
the grace. -/
theorem Patience.judgedSince (h : w.Patience) (hp : w.Reports) (hc : w.Client)
    (hphase : (w.slots s).phase = .judging asked pong now (callId :: todo))
    (hg : w.careful (.judge s) = true) {i : ℕ} {c : Call}
    (hi : (w.judgeOne s pong now callId).calls[i]? = some c) (hw : c.waits = true)
    (hs : c.slot = s) (hid : c.callId = callId) :
    Missed (w.rounds i)
        (World.judgedSince pong now callId ((w.slots s).vanished callId)) (w.slots s).judgedAt ∧
      Missed (w.rounds i + 1)
        (World.judgedSince pong now callId ((w.slots s).vanished callId)) now := by
  obtain ⟨d, hd, hslot, hdid, -, hwaits, -⟩ := (later_judgeOne s pong now callId).call i c hi
  have hold := h.waiting i d hd (hwaits hw)
  rw [hslot, hdid, hs, hid] at hold
  unfold World.judgedSince
  split_ifs with hin
  · have hzero := hp.own s pong (by rw [hphase]; rfl) i d hd (hslot.trans hs)
      (hdid.trans hid ▸ hin)
    rw [hzero]
    exact ⟨.of_lt (by omega), .of_lt (by omega)⟩
  · cases hv : (w.slots s).vanished callId with
    | none =>
      -- it was outstanding in one round at most
      have hlt : w.rounds i < 2 := by
        by_contra hge
        obtain ⟨-, since, hsince, -⟩ := hold (Nat.le_of_not_lt hge)
        rw [hv] at hsince
        cases hsince
      refine ⟨.of_lt hlt, fun hn => ⟨?_, now, rfl, ?_⟩⟩
      · unfold maxRounds
        omega
      · unfold pingInterval
        omega
    | some since =>
      dsimp only
      split_ifs with hgrace
      · rw [calls_judgeOne hin hv hgrace] at hi
        have hawaited : w.awaited callId = true := by
          unfold careful at hg
          simp only [hphase, Bool.or_eq_true, decide_eq_true_eq] at hg
          have hrest := hg.resolve_left hin
          rw [hv, Option.all_some, Bool.or_eq_true, decide_eq_true_eq] at hrest
          have hguard := hrest.resolve_left (Nat.not_lt.mpr hgrace)
          simp only [Bool.and_eq_true] at hguard
          exact hguard.1.1
        rw [hc.ended hawaited hi hs hid] at hw
        cases hw
      · have hsince := h.missing s (by rw [hphase]; exact Phase.noConfusion) callId since hv
        rw [hphase] at hsince
        rw [hv] at hold
        exact ⟨hold, hold.succ hsince (h.now s now (by rw [hphase]; rfl)).1
          (Nat.lt_of_not_le hgrace)⟩

theorem Patience.judge (h : w.Patience) (hp : w.Reports) (hc : w.Client)
    (hphase : (w.slots s).phase = .judging asked pong now (callId :: todo))
    (hg : w.careful (.judge s) = true) :
    ((w.judgeOne s pong now callId).setPhase s (.judging asked pong now todo)).Patience := by
  have hsame := SameRounds.judgeOne w s pong now callId
  have hrounds : ((w.judgeOne s pong now callId).setPhase s
      (.judging asked pong now todo)).rounds = w.rounds := rounds_judgeOne ..
  have hclock : ((w.judgeOne s pong now callId).setPhase s
      (.judging asked pong now todo)).clock = w.clock := by
    show (w.judgeOne s pong now callId).clock = w.clock
    unfold World.judgeOne
    split_ifs
    · rfl
    · split
      · rfl
      · split_ifs <;> rfl
  have hphase' : ∀ s', (((w.judgeOne s pong now callId).setPhase s
      (.judging asked pong now todo)).slots s').phase =
        if s' = s then .judging asked pong now todo else (w.slots s').phase := by
    intro s'
    rw [phase_setPhase, hsame.phase]
  have hjudgedAt : ∀ s', (((w.judgeOne s pong now callId).setPhase s
      (.judging asked pong now todo)).slots s').judgedAt = (w.slots s').judgedAt := fun s' =>
    (update_field Slot.judgedAt (by rfl) s').trans (hsame.judgedAt s')
  have hvanished : ∀ s' callId', (((w.judgeOne s pong now callId).setPhase s
      (.judging asked pong now todo)).slots s').vanished callId' =
        if s' = s ∧ callId' = callId then
          World.judgedSince pong now callId ((w.slots s).vanished callId)
        else (w.slots s').vanished callId' := fun s' callId' =>
    (congrFun (update_field Slot.vanished (by rfl) s') callId').trans (vanished_judgeOne ..)
  have hnow := h.now s now (by rw [hphase]; rfl)
  refine ⟨fun s' => ?_, fun s' since hq => ?_, fun s' asked' hq => ?_, fun s' now' hq => ?_,
    fun s' hstop callId' since hv => ?_, fun i c hi hw => ?_,
    fun i c asked' pong' now' todo' hi hw hq hmem hno => ?_⟩
  · rw [hjudgedAt, hclock]
    exact h.past s'
  · rw [hphase'] at hq
    split_ifs at hq
    rw [hjudgedAt]
    exact h.sleeping s' since hq
  · rw [hjudgedAt, hclock]
    rw [hphase'] at hq
    split_ifs at hq with heq
    · rw [heq]
      exact Nat.le_trans hnow.1 hnow.2
    · exact h.apart s' asked' hq
  · rw [hjudgedAt, hclock]
    rw [hphase'] at hq
    split_ifs at hq with heq
    · cases hq
      rw [heq]
      exact hnow
    · exact h.now s' now' hq
  · rw [hphase'] at hstop ⊢
    rw [hvanished] at hv
    rw [hjudgedAt]
    have hbound : ∀ callId' since, (w.slots s).vanished callId' = some since → since ≤ now := by
      intro callId' since hv
      have hle := h.missing s (by rw [hphase]; exact Phase.noConfusion) callId' since hv
      rwa [hphase] at hle
    by_cases heq : s' = s
    · rw [if_pos heq]
      show since ≤ now
      split_ifs at hv with hsame'
      · unfold World.judgedSince at hv
        split_ifs at hv
        split at hv
        · exact Nat.le_of_eq (Option.some.inj hv).symm
        · rename_i since' hv'
          split_ifs at hv
          rw [← Option.some.inj hv]
          exact hbound callId since' hv'
      · exact hbound callId' since (heq ▸ hv)
    · rw [if_neg heq] at hstop ⊢
      rw [if_neg fun hsame' => heq hsame'.1] at hv
      exact h.missing s' hstop callId' since hv
  · rw [hrounds, hvanished, hjudgedAt]
    split_ifs with hone
    · rw [hone.1]
      exact (h.judgedSince hp hc hphase hg hi hw hone.1 hone.2).1
    · obtain ⟨d, hd, hslot, hid, -, hwaits, -⟩ := (later_judgeOne s pong now callId).call i c hi
      rw [← hslot, ← hid]
      exact h.waiting i d hd (hwaits hw)
  · rw [hrounds, hvanished]
    rw [hphase'] at hq
    split_ifs with hone
    · rw [if_pos hone.1] at hq
      cases hq
      exact (h.judgedSince hp hc hphase hg hi hw hone.1 hone.2).2
    · obtain ⟨d, hd, hslot, hid, -, hwaits, -⟩ := (later_judgeOne s pong now callId).call i c hi
      rw [← hslot, ← hid]
      split_ifs at hq with heq
      · cases hq
        refine h.judged i d asked pong now (callId :: todo) hd (hwaits hw) ?_ hmem fun hin => ?_
        · rw [hslot, heq]
          exact hphase
        · rcases List.mem_cons.mp hin with hcid | hin
          · exact hone ⟨heq, hid.symm.trans hcid⟩
          · exact hno (hid ▸ hin)
      · exact h.judged i d asked' pong' now' todo' hd (hwaits hw) (hslot ▸ hq) hmem
          (hid ▸ hno)

theorem Patience.endRound (h : w.Patience) (ha : w.Asks) (hc : w.Client)
    (hphase : (w.slots s).phase = .judging asked pong now []) :
    (w.endRound s asked now).Patience := by
  have hasked : (w.slots s).phase.asked? = some asked := by rw [hphase]; rfl
  have hnow := h.now s now (by rw [hphase]; rfl)
  have hslot : ∀ s', s' = s ∧ (w.endRound s asked now).slots s' =
      { w.slots s with
        phase := .sleeping w.clock
        vanished := fun callId =>
          if callId ∈ (w.slots s).inFlight then (w.slots s).vanished callId else none
        judgedAt := now } ∨ s' ≠ s ∧ (w.endRound s asked now).slots s' = w.slots s' :=
    update_cases
  have hrounds : ∀ i, (w.endRound s asked now).rounds i =
      if i ∈ asked.calls then (if w.executes i then 0 else w.rounds i + 1) else w.rounds i :=
    fun _ => rfl
  -- the calls of the round are the slot's
  have hother : ∀ {i : ℕ} {c : Call}, w.calls[i]? = some c → c.slot ≠ s → i ∉ asked.calls := by
    intro i c hi hne hmem
    obtain ⟨d, hd, hs, -⟩ := ha.calls s asked hasked i hmem
    cases hi.symm.trans hd
    exact hne hs
  have hpatient : PatientSlot w.clock { w.slots s with
      phase := .sleeping w.clock
      vanished := fun callId =>
        if callId ∈ (w.slots s).inFlight then (w.slots s).vanished callId else none
      judgedAt := now } := by
    refine ⟨hnow.2, fun since hp => ?_, by rintro _ ⟨⟩, by rintro _ ⟨⟩, fun _ callId since hv => ?_⟩
    · rw [← Phase.sleeping.inj hp]
      exact hnow.2
    · dsimp only at hv
      split_ifs at hv
      have hle := h.missing s (by rw [hphase]; exact Phase.noConfusion) callId since hv
      rwa [hphase] at hle
  refine .of_slots (PatientSlot.update h.patient hpatient s) (fun i c hi hw => ?_)
    fun i c asked' pong' now' todo' hi hw hp hmem hno => ?_
  · have hi' : w.calls[i]? = some c := hi
    rw [hrounds]
    rcases hslot c.slot with ⟨hs, heq⟩ | ⟨hne, heq⟩
    · rw [heq]
      have hin : c.callId ∈ (w.slots s).inFlight :=
        hs ▸ hc.tracked i c hi' (Call.open_of_waits hw)
      dsimp only
      rw [if_pos hin]
      split_ifs with hmem hex
      · exact .of_lt (by omega)
      · have hjudged := h.judged i c asked pong now [] hi' hw (hs ▸ hphase) hmem List.not_mem_nil
        rwa [hs] at hjudged
      · rw [ha.outside i c asked hi' hw (hs ▸ hasked) hmem]
        exact .of_lt (by omega)
    · rw [heq, if_neg (hother hi' hne)]
      exact h.waiting i c hi' hw
  · have hi' : w.calls[i]? = some c := hi
    rw [hrounds]
    rcases hslot c.slot with ⟨-, heq⟩ | ⟨hne, heq⟩
    · rw [heq] at hp
      cases hp
    · rw [heq] at hp ⊢
      rw [if_neg (hother hi' hne)]
      exact h.judged i c asked' pong' now' todo' hi' hw hp hmem hno

/-- A reconciler forgets what it misses once no call that waits has been through a round. -/
theorem Patience.clear (h : w.Patience) {since : ℕ}
    (hphase : slot.phase = .sleeping since) (hjudgedAt : slot.judgedAt = (w.slots s).judgedAt)
    (hvanished : slot.vanished = fun _ => none) (hsince : (w.slots s).judgedAt ≤ since)
    (hzero : ∀ (i : ℕ) (c : Call), w.calls[i]? = some c → c.waits = true → c.slot = s →
      w.rounds i = 0) : (w.setSlot s slot).Patience := by
  have hslot : ∀ s', s' = s ∧ (w.setSlot s slot).slots s' = slot ∨
      s' ≠ s ∧ (w.setSlot s slot).slots s' = w.slots s' := update_cases
  have hpatient : PatientSlot w.clock slot := by
    refine ⟨hjudgedAt ▸ h.past s, fun since' hp => ?_, fun asked hp => ?_, fun now hp => ?_,
      fun _ callId since' hv => ?_⟩
    · rw [hjudgedAt, ← Phase.sleeping.inj (hphase.symm.trans hp)]
      exact hsince
    · rw [hphase] at hp
      cases hp
    · rw [hphase] at hp
      cases hp
    · rw [hvanished] at hv
      cases hv
  refine .of_slots (PatientSlot.update h.patient hpatient s) (fun i c hi hw => ?_)
    fun i c asked pong now todo hi hw hp hmem hno => ?_
  · have hold := h.waiting i c hi hw
    rcases hslot c.slot with ⟨hs, -⟩ | ⟨-, heq⟩
    · have hnone : (w.setSlot s slot).rounds i = 0 := hzero i c hi hw hs
      rw [hnone]
      exact .of_lt (by omega)
    · rw [heq]
      exact hold
  · rcases hslot c.slot with ⟨-, heq⟩ | ⟨-, heq⟩
    · rw [heq, hphase] at hp
      cases hp
    · rw [heq] at hp ⊢
      exact h.judged i c asked pong now todo hi hw hp hmem hno

theorem Patience.later (h : w.Patience)
    (hjudgedAt : slot.judgedAt = (w.slots s).judgedAt)
    (hvanished : slot.vanished = (w.slots s).vanished)
    (hnew : slot.phase.asked? = some asked) (hold : (w.slots s).phase.asked? = some asked)
    (hnone : (w.slots s).phase.now? = none) (hnow : ∀ now, slot.phase.now? ≠ some now) :
    (w.setSlot s slot).Patience := by
  have hstop : (w.slots s).phase ≠ .stopped := fun hp => by
    rw [hp] at hold
    cases hold
  refine h.setSlot hjudgedAt hvanished ⟨hjudgedAt ▸ h.past s, fun since hp => ?_,
    fun _ _ => hjudgedAt ▸ h.apart s asked hold, fun now hn => absurd hn (hnow now),
    fun _ callId since hv => ?_⟩ fun i c asked' pong now todo _ _ _ hp _ _ => ?_
  · rw [hp] at hnew
    cases hnew
  · have hmissing := h.missing s hstop callId since (hvanished ▸ hv)
    rw [hnone] at hmissing
    rwa [Option.eq_none_iff_forall_ne_some.mpr hnow, hjudgedAt]
  · rw [hp] at hnow
    exact absurd rfl (hnow now)

theorem Patience.init : init.Patience where
  past s := Nat.le_refl _
  sleeping s since hp := Nat.zero_le _
  apart s asked hp := by cases hp
  now s now hp := by cases hp
  missing s hstop callId since hv := by cases hv
  waiting i c hi := by simp [World.init] at hi
  judged i c asked pong now todo hi := by simp [World.init] at hi

theorem Patience.quiet (h : w.Patience) (hq : Quiet w w') : w'.Patience :=
  h.still ⟨hq.calls, hq.clock, fun _ => .inl (by rw [hq.count]), hq.rounds.phase, hq.vanished,
    hq.rounds.judgedAt⟩

theorem Patience.step (h : w.Patience) (he : w.Endings) (hp : w.Reports) (ha : w.Asks)
    (hc : w.Client) (hg : w.careful l = true) (hs : w.step? l = some w') :
    w'.Patience := by
  have hquiet := (Stepped.of_step? hs).quiet
  cases Stepped.of_step? hs with
  | request =>
    exact h.request ha _ (update_field Slot.phase (by rfl)) (update_field Slot.vanished (by rfl))
      (update_field Slot.judgedAt (by rfl))
  | register | publish | publishFailed | untrack | drop | loseInbound | reply | finish | deliver
  | elapse => exact h.quiet (hquiet trivial)
  | @refuse k callId => exact h.quiet (.refuse w k callId)
  | @spawn _ _ i =>
    refine h.still ⟨.refl _, Nat.le_refl _, fun j => ?_, fun _ => rfl, fun _ => rfl,
      fun _ => rfl⟩
    show Function.update w.rounds i 0 j = w.rounds j ∨ Function.update w.rounds i 0 j = 0
    rw [Function.update_apply]
    split_ifs
    · exact .inr rfl
    · exact .inl rfl
  | abort | insertHandle | pong => exact h.calls (.refl _) rfl rfl rfl
  | @idle s since hphase hwake hempty =>
    have hle := h.sleeping s since hphase
    refine h.clear rfl rfl rfl (by unfold pingInterval at hwake; omega) fun i c hi hw hcs => ?_
    -- no call of the slot waits
    have htracked := hc.tracked i c hi (Call.open_of_waits hw)
    rw [hcs, hempty] at htracked
    cases htracked
  | @ping s since hphase hwake =>
    have hle := h.sleeping s since hphase
    have hslot : (w.setSlot s { w.slots s with
        phase := .pinging ⟨(w.slots s).inFlight, w.outstanding s⟩
        probe := (w.slots s).probe + 1 }).Patience := by
      refine h.setSlot rfl rfl ⟨h.past s, by rintro _ ⟨⟩, fun _ _ => ?_, by rintro _ ⟨⟩,
        fun _ callId since' hv => ?_⟩ (by rintro _ _ _ _ _ _ _ _ _ ⟨⟩)
      · show (w.slots s).judgedAt + pingInterval ≤ w.clock
        omega
      · have hmissing := h.missing s (by rw [hphase]; exact Phase.noConfusion) callId since' hv
        rwa [hphase] at hmissing
    exact hslot.calls (.refl _) rfl rfl rfl
  | accept _ hphase | fail hphase =>
    exact h.later rfl rfl rfl (by rw [hphase]; rfl) (by rw [hphase]; rfl) (by rintro _ ⟨⟩)
  | @cancel s asked pong callId todo hphase =>
    have hslot : (w.setPhase s (.cancelling asked pong todo)).Patience :=
      h.later rfl rfl rfl (by rw [hphase]; rfl) (by rw [hphase]; rfl) (by rintro _ ⟨⟩)
    exact hslot.calls (.refl _) rfl rfl rfl
  | @cancelled s asked pong hphase =>
    have hasked : (w.slots s).phase.asked? = some asked := by rw [hphase]; rfl
    have hapart := h.apart s asked hasked
    refine h.setSlot rfl rfl ⟨h.past s, by rintro _ ⟨⟩, fun _ _ => hapart, fun now hn => ?_,
      fun _ callId since hv => ?_⟩ fun i c _ _ _ _ hi _ hcs hq hmem hno => ?_
    · rw [← Option.some.inj hn]
      exact ⟨hapart, Nat.le_refl _⟩
    · have hmissing := h.missing s (by rw [hphase]; exact Phase.noConfusion) callId since hv
      rw [hphase] at hmissing
      exact Nat.le_trans hmissing (h.past s)
    · cases hq
      obtain ⟨d, hd, -, hid⟩ := ha.calls s asked hasked i hmem
      cases hi.symm.trans hd
      exact absurd hid hno
  | judge hphase => exact h.judge hp hc hphase hg
  | endRound hphase => exact h.endRound ha hc hphase
  | @giveUp s asked callId todo hphase =>
    have habandon : (w.abandon s callId (some asked.calls)).Patience :=
      (h.quiet (.resolve w s callId)).calls (.refl _) rfl rfl rfl
    have hphase' : ((w.abandon s callId (some asked.calls)).slots s).phase =
        .failing asked (callId :: todo) :=
      ((SameRounds.abandon w s callId _).phase s).trans hphase
    exact habandon.later rfl rfl rfl (by rw [hphase']; rfl) (by rw [hphase']; rfl)
      (by rintro _ ⟨⟩)
  | @gaveUp s asked hphase =>
    have hslot : (w.setSlot s
        { w.slots s with phase := .sleeping w.clock, vanished := fun _ => none }).Patience := by
      refine h.clear rfl rfl rfl (h.past s) fun i c hi hw hcs => ?_
      by_cases hmem : i ∈ asked.calls
      · exact absurd ((he.giving s asked [] hphase).2 i hmem c hi hw) List.not_mem_nil
      · exact ha.outside i c asked hi hw (by rw [hcs, hphase]; rfl) hmem
    exact hslot.calls (.refl _) rfl rfl rfl
  | forget s =>
    exact h.setSlot rfl rfl ⟨h.past s, by rintro _ ⟨⟩, by rintro _ ⟨⟩, by rintro _ ⟨⟩,
      fun hstop => absurd rfl hstop⟩ (by rintro _ _ _ _ _ _ _ _ _ ⟨⟩)

/-! ## Runs -/

structure Inv (w : World) : Prop where
  client : w.Client
  runtime : w.Runtime
  asks : w.Asks
  reports : w.Reports
  endings : w.Endings
  patience : w.Patience

theorem Inv.init : init.Inv :=
  ⟨.init, .init, .init, .init, .init, .init⟩

theorem Inv.step (h : w.Inv) (hg : w.careful l = true) (hs : w.step? l = some w') :
    w'.Inv where
  client := h.client.step hg hs
  runtime := h.runtime.step h.client hg hs
  asks := h.asks.step h.client hs
  reports := h.reports.step h.asks h.runtime h.client hg hs
  endings := h.endings.step h.reports h.asks h.runtime h.client hg hs
  patience := h.patience.step h.endings h.reports h.asks h.client hg hs

theorem Inv.safe (h : w.Inv) : w.Safe := by
  refine ⟨h.endings.spared, fun i hw => ?_, h.endings.attended, fun asked hmem i hi => ?_,
    h.endings.others⟩
  · obtain ⟨c, hc, hwaits⟩ := waits_iff.mp hw
    by_cases htwo : 2 ≤ w.rounds i
    · exact (h.patience.waiting i c hc hwaits htwo).1
    · unfold maxRounds
      omega
  · obtain ⟨c, hc, hno⟩ := h.endings.ended asked hmem i hi
    exact waits_eq_false hc hno

end World

/-- A slot that is asked what the runtime executes cancels a call of another slot. -/
theorem slots_cancel_each_other : ∃ w, reconciliation.Reachable w ∧
    w.struck = [⟨0, true, true, none⟩] ∧ ¬ w.Safe := by
  have hrun : ((System.steps? World.step? .init
      [.request 0 "call_0", .register 0, .publish 0 true, .receive 0 false, .insertHandle,
        .request 1 "call_1", .elapse 10, .ping 1, .pong 0, .accept 1 0, .cancel 1,
        .receive 0 false]).map (·.struck)) = some [⟨0, true, true, none⟩] := by
    decide +kernel
  obtain ⟨w, hw, hstruck⟩ := Option.map_eq_some_iff.mp hrun
  obtain ⟨tr, htr, -⟩ := System.exec_steps? World.init hw
  refine ⟨w, htr.reachable (.init rfl), hstruck, fun h => ?_⟩
  exact h.spared _ (by rw [hstruck]; exact List.mem_cons_self) rfl ⟨rfl, rfl⟩

/-- In a run in which each call has an id of its own and a reconciler, each pong that is taken
answers the reconciler's own ping, no call that a pong lists is another slot's, what is given up is
registered and did not reach the runtime after the pong, no task ends before it is registered, and
no slot is forgotten that has calls outstanding: no call that is executed and waited for is
cancelled, or given up while pings are answered; a call that is waited for has a reconciler and has
been outstanding in at most four rounds since the runtime executed it; and a ping that fails ends
the calls that were outstanding, and no others. -/
theorem reconciliation_safe {tr : List (World × World.Label × World)} {w : World}
    (h : reconciliation.Exec .init tr w) (hg : ∀ x ∈ tr, x.1.careful x.2.1 = true) : w.Safe := by
  have hinv : w.Inv := h.guarded (G := fun w l => w.careful l = true) (I := World.Inv)
    (fun _ _ _ _ hw hl hs => hw.step hl hs) (.init rfl) World.Inv.init hg
  exact hinv.safe

/-- Of two calls one is lost, and given up at the fourth round it is missing in. -/
theorem reconciliation_safe_lost : ∃ tr w, reconciliation.Exec .init tr w ∧
    w.calls.map Call.waits = [false, true] ∧ w.rounds 0 = 3 ∧ w.Safe := by
  have hrun : ((System.steps? (System.guarded? (fun w l => World.careful w l = true) World.step?)
      .init
      [.request 0 "call_0", .register 0, .publish 0 true, .loseInbound 0,
        .request 0 "call_1", .register 1, .publish 1 true, .receive 0 false, .insertHandle,
        .elapse 10, .ping 0, .pong 0, .accept 0 0, .cancel 0, .cancel 0, .judge 0, .judge 0,
        .judge 0,
        .elapse 10, .ping 0, .pong 0, .accept 0 1, .cancel 0, .cancel 0, .judge 0, .judge 0,
        .judge 0,
        .elapse 10, .ping 0, .pong 0, .accept 0 2, .cancel 0, .cancel 0, .judge 0, .judge 0,
        .judge 0,
        .elapse 10, .ping 0, .pong 0, .accept 0 3, .cancel 0, .cancel 0, .judge 0, .judge 0]).map
          fun w => (w.calls.map Call.waits, w.rounds 0)) = some ([false, true], 3) := by
    decide +kernel
  obtain ⟨w, hw, hx⟩ := Option.map_eq_some_iff.mp hrun
  obtain ⟨tr, htr, -, hall⟩ := System.exec_guarded? World.init hw
  obtain ⟨hwaits, hrounds⟩ := Prod.mk.inj hx
  exact ⟨tr, w, htr, hwaits, hrounds, reconciliation_safe htr hall⟩

end Horsie.Reconciler
